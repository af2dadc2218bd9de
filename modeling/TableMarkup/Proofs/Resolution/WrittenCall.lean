import TableMarkup.Proofs.Json.Ending
import TableMarkup.Proofs.Json.RoundTrip
import TableMarkup.Proofs.Resolution.Interview

/-!
# Calls in attributes

A call is written as names with dots between them, and JSON arguments in parentheses. Whatever stands
in the arguments, the text is cut where it was put together, and no form of literals reads it, since
no literal ends with a closing parenthesis.

* `PathStep.callText`: the text of a call.
* `PathStep.segments_callText`, `PathStep.callOf?_callSegment`, `PathStep.itemsOf?_argumentsText`: how
  it is cut, into names and arguments.
* `Literal.declines_of_parenthesis`: no form of literals reads a text that ends with a closing
  parenthesis, but for that of functions, which asks the host.
* `Host.errand_callText`, `Host.globalName?_callText`: what the text of a call comes to, and the name that
  it asks for.
* `Host.resolve_writtenCall`: the function that the names lead to is run once, on the value that it
  was found in and with the arguments that were written.
-/

namespace TableMarkup

/-! ## The text of a call -/

namespace PathStep

/-- The name is not empty, and there are no separators of paths in it. -/
structure IsName (name : String) : Prop where
  ne_nil : name.toList ≠ []
  dot : '.' ∉ name.toList
  opening : '(' ∉ name.toList
  closing : ')' ∉ name.toList

def argumentsText (args : List Json) : List Char :=
  Json.separated (args.map Json.compact)

def callSegment (name : String) (args : List Json) : List Char :=
  name.toList ++ '(' :: (argumentsText args ++ [')'])

/-- The text of a call of the function that is found under the last name, along the other names. -/
def callText (names : List String) (last : String) (args : List Json) : List Char :=
  names.foldr (fun name rest => name.toList ++ '.' :: rest) (callSegment last args)

theorem exists_callText_eq_concat (names : List String) (last : String) (args : List Json) :
    ∃ before, callText names last args = before ++ [')'] := by
  induction names with
  | nil => exact ⟨last.toList ++ '(' :: argumentsText args, by simp [callText, callSegment]⟩
  | cons name names ih =>
    obtain ⟨before, hbefore⟩ := ih
    refine ⟨name.toList ++ '.' :: before, ?_⟩
    rw [callText, List.foldr_cons, ← callText, hbefore, List.append_assoc, List.cons_append]

variable {names : List String} {last : String} {args : List Json}

/-- The text of a call is cut into the names and the segment of the call. -/
theorem segments_callText (hnames : ∀ name ∈ names, IsName name) (hlast : IsName last)
    (hdot : '.' ∉ argumentsText args) :
    segments (callText names last args) =
      names.map String.toList ++ [callSegment last args] := by
  -- On the names, each of which ends at its own dot.
  induction names with
  | nil =>
    -- The last segment has no dots, neither in its name nor in its arguments.
    have hmem : '.' ∉ callText [] last args := by
      simp [callText, callSegment, hlast.dot, hdot]
    exact segments_of_not_mem hmem
  | cons name names ih =>
    have hname := hnames name List.mem_cons_self
    rw [callText, List.foldr_cons, ← callText, segments_of_dot hname.ne_nil hname.dot,
      ih fun name hmem => hnames name (List.mem_cons_of_mem _ hmem)]
    rfl

theorem callOf?_callSegment (hlast : IsName last) (hclosing : ')' ∉ argumentsText args) :
    callOf? (callSegment last args) = some (last.toList, some (argumentsText args)) := by
  have hopening : (callSegment last args).idxOf '(' = last.toList.length := by
    rw [callSegment, List.idxOf_append_of_notMem hlast.opening, List.idxOf_cons_self, Nat.add_zero]
  have hpos : 0 < last.toList.length := List.length_pos_of_ne_nil hlast.ne_nil
  have hlt : last.toList.length < (callSegment last args).length := by
    rw [callSegment, List.length_append, List.length_cons]
    omega
  -- The first closing parenthesis is the one at the end: there is none in the name or the arguments.
  have hbody := take_drop_between last.toList (argumentsText args ++ [')'])
  have hbefore : (argumentsText args ++ [')']).takeWhile (· ≠ ')') = argumentsText args := by
    rw [takeWhile_eq_take_idxOf, List.idxOf_append_of_notMem hclosing, List.idxOf_cons_self,
      Nat.add_zero, List.take_left]
  rw [if_neg hlast.closing, if_pos (by simp), hbefore] at hbody
  rw [callOf?, hopening, if_pos ⟨hpos, hlt⟩, callSegment, List.take_left]
  exact congrArg (fun body => some (last.toList, body)) hbody

/-- The arguments are read as they were written. -/
theorem itemsOf?_argumentsText (hfloats : (Json.array args).FloatFree)
    (horder : (Json.array args).InOrder) (hdepth : (Json.array args).depth ≤ Json.nestingLimit) :
    itemsOf? (argumentsText args) = some args := by
  have hread := Json.parse?_compact hfloats horder hdepth
  rw [Json.compact_array, Json.bracketed] at hread
  rw [itemsOf?, argumentsText, hread]

end PathStep

/-! ## No literals -/

namespace Literal

/-- No form of literals reads a text that ends with a closing parenthesis, unless the host does. -/
theorem declines_of_parenthesis {text : String} {before : List Char}
    (h : text.toList = before ++ [')']) :
    boolean? text = none ∧ integer? text.toList = none ∧ json? text.toList = none := by
  have hmem : ')' ∈ text.toList := by simp [h]
  -- A truth value and an integer do not hold this character; JSON may hold it, but does not end
  -- with it.
  refine ⟨?_, ?_, ?_⟩
  · cases hboolean : boolean? text with
    | none => rfl
    | some b => exact absurd (toLower_mem_of_boolean? hboolean hmem) (by decide)
  · cases hinteger : integer? text.toList with
    | none => rfl
    | some n =>
      obtain ⟨negative, d, ds, w, hrun, -, -⟩ := run_of_integer? hinteger
      exact absurd hmem (hrun.not_mem (by decide) (by decide))
  · rw [json?, h, withDoubleQuotes, List.map_append]
    exact Json.parse?_concat_parenthesis _

/-- So there are no quotes to take off from it, and it is not settled without the host. -/
theorem unsettled_of_parenthesis {text : String} {before : List Char}
    (h : text.toList = before ++ [')']) : innermost text = text ∧ settled? text = none := by
  obtain ⟨hboolean, hinteger, hjson⟩ := declines_of_parenthesis h
  constructor
  · exact innermost_of_no_json hjson
  · rw [settled?, hboolean, hinteger, hjson]
    rfl

end Literal

/-! ## Errands of calls -/

namespace Host

variable {m : Type → Type} [Monad m] [LawfulMonad m]

/-- A walk goes along names as values do, where the scope stands for a value. -/
theorem walk_eq_along (host : Host m) {scope : Scope} {v reached : Value} {names : List String}
    (hscope : host.receiverIn scope = pure v ∧
      ∀ name, host.lookup scope name = pure (v.member name))
    (h : v.along names = some reached) :
    ∃ inside, host.walk scope (names.map String.toList) = pure (some inside) ∧
      host.receiverIn inside = pure reached ∧
      ∀ name, host.lookup inside name = pure (reached.member name) := by
  -- On the names: the scope stands for the value that the names before have led to.
  induction names generalizing scope v with
  | nil =>
    obtain rfl := Option.some.inj h
    exact ⟨scope, rfl, hscope⟩
  | cons name names ih =>
    rw [Value.along] at h
    split at h
    · next hmembers =>
      -- Behind the first name the scope is the value itself.
      have hnext : host.receiverIn (.member (v.member name)) = pure (v.member name) ∧
          ∀ other, host.lookup (.member (v.member name)) other =
            pure ((v.member name).member other) :=
        ⟨rfl, fun _ => rfl⟩
      obtain ⟨inside, hwalk, hinside⟩ := ih hnext h
      refine ⟨inside, ?_, hinside⟩
      rw [List.map_cons, walk, String.ofList_toList, hscope.2, pure_bind, if_pos hmembers, hwalk]
    · contradiction

variable {names : List String} {last : String} {args : List Json}

/-- What the text of a call comes to, along names that lead to a function. -/
theorem errand_callText (host : Host m) {scope : Scope} {v reached : Value} {f : Callable}
    {members : List (String × Value)} (hnames : ∀ name ∈ names, PathStep.IsName name)
    (hlast : PathStep.IsName last) (hfloats : (Json.array args).FloatFree)
    (horder : (Json.array args).InOrder) (hdepth : (Json.array args).depth ≤ Json.nestingLimit)
    (hdot : '.' ∉ PathStep.argumentsText args) (hclosing : ')' ∉ PathStep.argumentsText args)
    (hscope : host.receiverIn scope = pure v ∧
      ∀ name, host.lookup scope name = pure (v.member name))
    (hwalk : v.along names = some reached) (hfunction : reached.member last = .function f members)
    {text : String} (htext : text.toList = PathStep.callText names last args) :
    host.errand scope text = pure (.call f reached args) := by
  -- The walk ends in the value in which the function is found.
  obtain ⟨inside, hinside, hreceiver, hlookup⟩ := host.walk_eq_along hscope hwalk
  have hsegments := PathStep.segments_callText hnames hlast hdot
  rw [← htext] at hsegments
  rw [host.errand_of_segments scope hsegments, hinside, pure_bind]
  dsimp only
  rw [errandAt, PathStep.callOf?_callSegment hlast hclosing]
  dsimp only
  rw [Option.bind_some, PathStep.itemsOf?_argumentsText hfloats horder hdepth]
  dsimp only
  rw [String.ofList_toList, hlookup, hfunction, pure_bind, hreceiver]
  exact map_pure _ _

omit [LawfulMonad m] [Monad m] in
/-- The global name that the text of a call asks for is its first one. -/
theorem globalName?_callText (hnames : ∀ name ∈ names, PathStep.IsName name)
    (hlast : PathStep.IsName last) (hfloats : (Json.array args).FloatFree)
    (horder : (Json.array args).InOrder) (hdepth : (Json.array args).depth ≤ Json.nestingLimit)
    (hdot : '.' ∉ PathStep.argumentsText args) (hclosing : ')' ∉ PathStep.argumentsText args)
    {text : String} (htext : text.toList = PathStep.callText names last args) :
    PathStep.globalName? .global text = some (names.head?.getD last) := by
  have hsegments := PathStep.segments_callText hnames hlast hdot
  rw [← htext] at hsegments
  -- Without names in front the function itself is the global name.
  cases names with
  | nil =>
    rw [PathStep.globalName?_single hsegments, PathStep.nameOf?,
      PathStep.callOf?_callSegment hlast hclosing]
    dsimp only
    rw [Option.bind_some, PathStep.itemsOf?_argumentsText hfloats horder hdepth]
    exact congrArg some String.ofList_toList
  | cons name names =>
    rw [PathStep.globalName?_cons hsegments]
    exact congrArg some String.ofList_toList

/-- A call that is written with names and JSON arguments is made: the function to which the names
lead, from the table of global names through values that have members, is run once, on the value that
it was found in and with the arguments that were written, and what it gives is given. The forms of
literals decline the text, of which the last is that of functions: it asks for an evaluation, if the
host is able to, and gets no function. -/
theorem resolve_writtenCall (globals : Members Value)
    (call : Callable → Value → List Json → m Value)
    (evaluator : Option (String → m (Option Value))) {reached : Value} {f : Callable}
    {members : List (String × Value)} (hnames : ∀ name ∈ names ++ [last], PathStep.IsName name)
    (hfloats : (Json.array args).FloatFree) (horder : (Json.array args).InOrder)
    (hdepth : (Json.array args).depth ≤ 127)
    (hdot : '.' ∉ PathStep.argumentsText args) (hclosing : ')' ∉ PathStep.argumentsText args)
    (hmute : (Host.ofGlobals globals call evaluator).GivesNoFunction)
    (hwalk : (Value.object globals).along names = some reached)
    (hfunction : reached.member last = .function f members) :
    let host := Host.ofGlobals globals call evaluator
    let text := String.ofList (PathStep.callText names last args)
    let source := Literal.functionSource text
    (Literal.boolean.attempt host text = pure none ∧ Literal.integer.attempt host text = pure none ∧
      Literal.json.attempt host text = pure none ∧
      Literal.function.attempt host text = (fun _ => none) <$> host.evaluate source) ∧
    host.resolve (.string text) = host.evaluate source *> call f reached args ∧
    ∀ log, (host.traced.resolve (.string text)).run log =
      (fun v => (v, log ++ (evaluator.map fun _ => Request.evaluate source).toList ++
        [.lookUp (names.head?.getD last), .call f.name reached args])) <$>
          (host.evaluate source *> call f reached args) := by
  intro host text source
  have htext : text.toList = PathStep.callText names last args := String.toList_ofList
  have hscope : host.receiverIn .global = pure (.object globals) ∧
      ∀ name, host.lookup .global name = pure ((Value.object globals).member name) :=
    ⟨rfl, fun _ => rfl⟩
  have hbefore : ∀ name ∈ names, PathStep.IsName name :=
    fun name hmem => hnames name (List.mem_append_left _ hmem)
  have hlast : PathStep.IsName last := hnames last (List.mem_append_right _ List.mem_cons_self)
  have herrand : host.errand .global text = pure (.call f reached args) :=
    host.errand_callText hbefore hlast hfloats horder hdepth hdot hclosing hscope hwalk hfunction
      htext
  have hname : PathStep.globalName? .global text = some (names.head?.getD last) :=
    globalName?_callText hbefore hlast hfloats horder hdepth hdot hclosing htext
  obtain ⟨before, hconcat⟩ := PathStep.exists_callText_eq_concat names last args
  obtain ⟨hboolean, hinteger, hjson⟩ := Literal.declines_of_parenthesis (htext.trans hconcat)
  obtain ⟨hinside, hsettled⟩ := Literal.unsettled_of_parenthesis (htext.trans hconcat)
  refine ⟨⟨?_, ?_, ?_, ?_⟩, ?_, fun log => ?_⟩
  · rw [Literal.attempt, hboolean, Option.map_none]
  · rw [Literal.attempt, hinteger, Option.map_none]
  · rw [Literal.attempt, hjson, Option.map_none]
  · exact function?_of_givesNoFunction hmute text
  · -- There are no quotes to take off, so the text itself goes on to the path.
    rw [resolve, resolveIn, resolveText_eq_innermost, hinside, hsettled]
    dsimp only
    rw [evaluate_bind_of_givesNoFunction hmute, resolvePath_eq_perform, herrand, pure_bind]
    rfl
  · rw [resolve, resolveIn, run_resolveText_traced, hinside, interview, hsettled]
    dsimp only
    rw [evaluate_bind_of_givesNoFunction hmute, herrand, hname, pure_bind, perform, bind_pure_comp,
      seqRight_eq_bind, seqRight_eq_bind, map_bind, map_bind]
    refine bind_congr fun _ => ?_
    -- The evaluation is there only for a host that is able to evaluate.
    have hrequests : Asked.requests ⟨evaluator.map fun _ => source, some (names.head?.getD last),
          some (f, reached, args)⟩ =
        (evaluator.map fun _ => Request.evaluate source).toList ++
          [.lookUp (names.head?.getD last), .call f.name reached args] := by
      cases evaluator <;> rfl
    rw [Functor.map_map, List.append_assoc, ← hrequests]
    rfl

/-- A call of a function inside an object, with an argument that holds separators of its own: the host
is asked to evaluate, to no effect on the outcome, looks the object up, and then runs the function on
it. -/
theorem resolve_writtenCall_nested :
    let pad : Callable := ⟨0, "pad"⟩
    let app : Value := .object [("pad", .function pad [])]
    let args : List Json := [.string "(a,[b", .array [.null]]
    let host : Host (StateM Nat) := .ofGlobals [("app", app)]
      (fun _ _ args => do modify (· + 1); pure (.json (.array args)))
      (some fun _ => do modify (· + 10); pure (some .null))
    PathStep.IsName "app" ∧ PathStep.IsName "pad" ∧
      (Json.array args).FloatFree ∧ (Json.array args).InOrder ∧ (Json.array args).depth ≤ 127 ∧
      '.' ∉ PathStep.argumentsText args ∧ ')' ∉ PathStep.argumentsText args ∧
      host.GivesNoFunction ∧ (Value.object [("app", app)]).along ["app"] = some app ∧
      ((host.traced.resolve (.string "app.pad(\"(a,[b\",[null])")).run []).run 0 =
        ((.json (.array args),
          [.evaluate "(app.pad(\"(a,[b\",[null]))", .lookUp "app", .call "pad" app args]),
          11) := by
  intro pad app args host
  have happ : PathStep.IsName "app" := by constructor <;> decide
  have hpad : PathStep.IsName "pad" := by constructor <;> decide
  have hnames : ∀ name ∈ ["app"] ++ ["pad"], PathStep.IsName name := by simp [happ, hpad]
  have hfloats : (Json.array args).FloatFree := by
    simp [args, Json.FloatFree, Json.Everywhere, Json.EveryItem, Json.IsNoFloat]
  have horder : (Json.array args).InOrder := by
    simp [args, Json.InOrder, Json.Everywhere, Json.EveryItem, Json.IsInOrder]
  have hdepth : (Json.array args).depth ≤ 127 := by decide
  have hdot : '.' ∉ PathStep.argumentsText args := by decide
  have hclosing : ')' ∉ PathStep.argumentsText args := by decide
  have hmute : host.GivesNoFunction := fun _ => rfl
  have hwalk : (Value.object [("app", app)]).along ["app"] = some app := rfl
  obtain ⟨-, -, htraced⟩ := resolve_writtenCall _ _ _ hnames hfloats horder hdepth hdot hclosing
    hmute hwalk rfl
  exact ⟨happ, hpad, hfloats, horder, hdepth, hdot, hclosing, hmute, hwalk,
    congrArg (fun run => run.run 0) (htraced [])⟩

end Host

end TableMarkup
