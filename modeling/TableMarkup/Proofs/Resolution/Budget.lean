import Mathlib.Data.Part
import TableMarkup.Proofs.Resolution.Interview

/-!
# The budget of a resolution

Resolution is written here once more, by recursion on a budget instead of on the length of the text:
so many times may a text that was read as JSON go back to the top, and so many steps may a path go
down into values. Where the budget is used up, nothing is returned. Half the length of the text is
enough of the one, and the number of dots in the path is enough of the other; so resolution comes to
an end by itself, and fails to return only where the host does.

* `Host.pathWithin`, `Host.textWithin`, `Host.resolveWithin`, `Host.configWithin`: resolution within a
  budget.
* `Host.run_pathWithin`: each step down takes a dot, `PathStep.count_dots_of_member`.
* `Host.run_textWithin`: each return to the top takes two characters,
  `Literal.length_of_json?_string` and `Literal.two_le_length_of_json?`.
* `Host.Returns`: a host whose look-ups, functions and evaluator return.
-/

namespace TableMarkup

/-! ## Resolution within a budget -/

namespace Host

variable {m : Type → Type} [Monad m]

/-- What a path stands for, with a budget of steps down into values. -/
def pathWithin (host : Host m) (descents : Nat) (scope : Scope) (path : String) :
    OptionT m Value :=
  match PathStep.of path with
  | .member head tail => do
    let next ← OptionT.lift (host.lookup scope head)
    if next.isObjectLike then
      match descents with
      | 0 => failure
      | descents + 1 => host.pathWithin descents (.member next) tail
    else pure .undefined
  | .call name (some args) => OptionT.lift (host.callIn scope name args)
  | .call _ none => pure .undefined
  | .property name => OptionT.lift (host.lookup scope name)

/-- What a text stands for, with a budget of returns to the top as well. Whatever a text is read as by
JSON returns to the top, be it text again or not. -/
def textWithin (host : Host m) (descents reentries : Nat) (text : String) : OptionT m Value :=
  match Literal.boolean? text with
  | some b => pure (.bool b)
  | none =>
    match Literal.integer? text.toList with
    | some n => pure (.number n)
    | none =>
      match Literal.json? text.toList with
      | some j =>
        match reentries with
        | 0 => failure
        | reentries + 1 =>
          match j with
          | .string s => host.textWithin descents reentries s
          | j => pure (.ofJson j)
      | none => do
        match ← OptionT.lift (Literal.function? host text) with
        | some f => pure f
        | none => host.pathWithin descents .global text

/-- What a raw value stands for in a scope, within a budget. -/
def resolveWithin (host : Host m) (descents reentries : Nat) (scope : Scope) (raw : Value) :
    OptionT m Value :=
  match raw, scope with
  | .string text, .global => host.textWithin descents reentries text
  | .string text, .member _ => host.pathWithin descents scope text
  | other, _ => pure other

/-- What a raw value stands for, or the raw value itself, within a budget. -/
def configWithin (host : Host m) (descents reentries : Nat) (raw : Value) : OptionT m Value := do
  match ← host.resolveWithin descents reentries .global raw with
  | .undefined => pure raw
  | resolved => pure resolved

/-- The host comes back with an answer, whatever it is asked: its look-ups, its functions and its
evaluator do. -/
structure Returns (host : Host Part) : Prop where
  global : ∀ name, (host.global name).Dom
  receiver : host.receiver.Dom
  call : ∀ f receiver args, (host.call f receiver args).Dom
  evaluate : ∀ source, (host.evaluate source).Dom

end Host

/-- The text that is resolved as a path in a scope, if it comes to that: literals are unwrapped in the
global scope only. -/
def Scope.inside (scope : Scope) (text : String) : String :=
  match scope with
  | .global => Literal.innermost text
  | .member _ => text

/-! ## What a step takes -/

/-- A step down takes the dot behind the name. -/
theorem PathStep.count_dots_of_member {path head tail : String} (h : of path = .member head tail) :
    tail.toList.count '.' < path.toList.count '.' := by
  rw [of_eq] at h
  split at h
  · next hdot =>
    obtain ⟨-, rfl⟩ := PathStep.member.inj h
    -- The path is the head, the dot and the tail, so the tail has one dot less at least.
    have hcount := congrArg (List.count '.') (take_append_cons_drop hdot.2)
    rw [List.count_append, List.count_cons_self] at hcount
    rw [String.toList_ofList]
    omega
  · split at h <;> contradiction

/-- A single character is no JSON but for a digit. -/
theorem Json.exists_digit?_of_parse?_singleton {c : Char} {j : Json} (h : parse? [c] = some j) :
    ∃ n, Text.digit? c = some n := by
  cases hdigit : Text.digit? c with
  | some n => exact ⟨n, rfl⟩
  | none =>
    -- A number may also begin with a minus sign, which is no number by itself.
    have hdraft : ∀ d, Numeral.Draft.start? c = some d → d.complete = false := by
      intro d hd
      rw [Numeral.Draft.start?, hdigit] at hd
      split at hd
      · cases hd
        rfl
      · contradiction
    -- Whatever else the character begins is not complete without more of it.
    have hstep : ∀ m, (Machine.start Assembly.start).step Assembly.sink c = .ok m →
        m.finish Assembly.sink = .error .ended := by
      intro m hm
      simp only [Machine.step, Machine.start, Machine.stepBetween, Machine.startValue, Assembly.sink,
        Bool.and_false, Bool.false_eq_true, if_false] at hm
      repeat' split at hm
      all_goals first
        | contradiction
        | (cases hm; rfl)
        | (next hd => cases hm; simp [Machine.finish, hdraft _ hd])
    obtain ⟨m, hread, hfinish⟩ := exists_of_bind_ok (parse?_eq_some_iff.mp h)
    rw [List.foldlM_cons] at hread
    obtain ⟨m, hm, ⟨⟩⟩ := exists_of_bind_ok hread
    rw [hstep _ hm] at hfinish
    contradiction

/-- One digit is an integer. -/
theorem Literal.integer?_singleton {c : Char} {n : Nat} (h : Text.digit? c = some n) :
    integer? [c] ≠ none := by
  have hlt := (Text.digit?_eq_some_iff.mp h).1
  -- A digit is no sign, so the text is read as digits.
  have hminus : c ≠ '-' := by
    rintro rfl
    contradiction
  obtain ⟨w, hw⟩ : ∃ w, WideInt.ofInt? (n : Int) = some w := by
    rw [WideInt.ofInt?, dif_pos ⟨by omega, by omega⟩]
    exact ⟨_, rfl⟩
  have hdigits : Text.ofDigits? [c] = some n := by
    rw [Text.ofDigits?, List.mapM_cons, h]
    simp [Text.ofDigitValues]
  rw [integer?]
  · rw [if_neg (by simp), hdigits, Option.bind_eq_bind, Option.bind_some,
      if_neg Bool.false_ne_true, hw]
    exact Option.some_ne_none _
  · exact fun rest hrest => hminus (List.cons.inj hrest).1

/-- The shortest JSON texts are digits, and these are integers already. -/
theorem Literal.two_le_length_of_json? {text : String} {j : Json}
    (hjson : json? text.toList = some j) (hinteger : integer? text.toList = none) :
    2 ≤ text.length := by
  rw [← String.length_toList]
  cases htext : text.toList with
  | nil =>
    rw [htext] at hjson
    contradiction
  | cons c rest =>
    cases rest with
    | cons c' rest => simp
    | nil =>
      rw [htext] at hjson hinteger
      -- Of a single character only a digit is JSON, and that would have been an integer.
      obtain ⟨n, hn⟩ := Json.exists_digit?_of_parse?_singleton hjson
      dsimp only at hn
      split at hn
      · contradiction
      · exact absurd hinteger (integer?_singleton hn)

namespace Host

variable {m : Type → Type} [Monad m] [LawfulMonad m] (host : Host m)

/-! ## The budget suffices -/

/-- A path has no more steps down than dots. -/
theorem run_pathWithin {descents : Nat} (scope : Scope) {path : String}
    (h : path.toList.count '.' ≤ descents) :
    (host.pathWithin descents scope path).run = some <$> host.resolvePath scope path := by
  -- On the budget: a step down takes one from it and at least one dot from the path.
  induction descents generalizing scope path with
  | zero =>
    rw [pathWithin, resolvePath_eq]
    cases hstep : PathStep.of path with
    | member head tail =>
      have hdots := PathStep.count_dots_of_member hstep
      omega
    | call name args => cases args <;> simp
    | property name => simp
  | succ descents ih =>
    rw [pathWithin, resolvePath_eq]
    cases hstep : PathStep.of path with
    | member head tail =>
      have hdots := PathStep.count_dots_of_member hstep
      dsimp only
      rw [OptionT.run_bind, OptionT.run_lift, Option.elimM, bind_assoc, map_bind]
      refine bind_congr fun next => ?_
      rw [pure_bind, Option.elim_some]
      split
      · exact ih _ (by omega)
      · simp
    | call name args => cases args <;> simp
    | property name => simp

omit [LawfulMonad m] in
theorem textWithin_of_string {text s : String} (h : Literal.json? text.toList = some (.string s))
    (descents reentries : Nat) :
    host.textWithin descents (reentries + 1) text = host.textWithin descents reentries s := by
  rw [textWithin, Literal.boolean?_of_string h, Literal.integer?_of_string h, h]

/-- A text returns to the top once for every two of its characters at most. -/
theorem run_textWithin {descents reentries : Nat} {text : String}
    (hdescents : (Literal.innermost text).toList.count '.' ≤ descents)
    (hreentries : text.length / 2 ≤ reentries) :
    (host.textWithin descents reentries text).run = some <$> host.resolveText text := by
  -- On the unwrapping of JSON strings, with the budget that is left at each of them.
  induction text using Literal.innermost_induction generalizing reentries with
  | inner text hinner =>
    rw [Literal.innermost_of_not_string hinner] at hdescents
    rw [resolveText_eq]
    cases hboolean : Literal.boolean? text with
    | some b =>
      rw [textWithin, hboolean]
      simp
    | none =>
      cases hinteger : Literal.integer? text.toList with
      | some n =>
        rw [textWithin, hboolean, hinteger]
        simp
      | none =>
        cases hjson : Literal.json? text.toList with
        | some j =>
          -- It is long enough to return to the top once.
          have hlength := Literal.two_le_length_of_json? hjson hinteger
          obtain ⟨left, rfl⟩ : ∃ left, reentries = left + 1 := ⟨reentries - 1, by omega⟩
          rw [textWithin, hboolean, hinteger, hjson]
          cases j with
          | string s => exact absurd hjson (hinner s)
          | _ => simp
        | none =>
          rw [textWithin, hboolean, hinteger, hjson]
          dsimp only
          rw [OptionT.run_bind, OptionT.run_lift, map_bind]
          simp only [Option.elimM, bind_assoc, pure_bind, Option.elim_some]
          refine bind_congr fun answer => ?_
          cases answer with
          | none => exact host.run_pathWithin .global hdescents
          | some f => simp
  | wrapped text s hs ih =>
    have hlength := Literal.length_of_json?_string hs
    obtain ⟨left, rfl⟩ : ∃ left, reentries = left + 1 := ⟨reentries - 1, by omega⟩
    rw [Literal.innermost_of_string hs] at hdescents
    rw [host.textWithin_of_string hs, host.resolveText_of_string hs]
    -- The content is two characters shorter, so it needs one return less.
    exact ih hdescents (by omega)

/-- In any scope the length of the text and the dots of its path are budget enough. -/
theorem run_resolveWithin (scope : Scope) (text : String) :
    (host.resolveWithin ((scope.inside text).toList.count '.') (text.length / 2) scope
      (.string text)).run = some <$> host.resolveIn scope (.string text) := by
  cases scope with
  | global => exact host.run_textWithin le_rfl le_rfl
  | member v => exact host.run_pathWithin (.member v) le_rfl

theorem run_configWithin (text : String) :
    (host.configWithin ((Literal.innermost text).toList.count '.') (text.length / 2)
      (.string text)).run = some <$> host.configValue (.string text) := by
  have hresolve : (host.resolveWithin ((Literal.innermost text).toList.count '.') (text.length / 2)
      .global (.string text)).run = some <$> host.resolve (.string text) :=
    host.run_resolveWithin .global text
  rw [configWithin, configValue, OptionT.run_bind, hresolve, Option.elimM, bind_map_left, map_bind]
  refine bind_congr fun v => ?_
  cases v <;> simp

end Host

/-! ## Hosts that return -/

namespace Host

section Partiality

variable {host : Host Part}

theorem Returns.dom_perform (h : host.Returns) (errand : Errand) : (host.perform errand).Dom := by
  cases errand with
  | settled v => trivial
  | call f receiver args => exact h.call f receiver args

/-- A last segment in the global scope takes a look-up, and the receiver if it is a call. -/
theorem Returns.dom_errandAt (h : host.Returns) (last : List Char) :
    (host.errandAt .global last).Dom := by
  rw [errandAt]
  -- A member is looked up; a call looks its function up and may ask for the receiver.
  cases PathStep.callOf? last with
  | none => exact h.global _
  | some call =>
    obtain ⟨name, body⟩ := call
    dsimp only
    cases body.bind PathStep.itemsOf? with
    | none => trivial
    | some args =>
      refine Part.bind_dom.mpr ⟨h.global _, ?_⟩
      split
      · exact h.receiver
      · trivial

theorem Returns.dom_errand (h : host.Returns) (scope : Scope) (path : String) :
    (host.errand scope path).Dom := by
  obtain ⟨names, last, hsegments⟩ := PathStep.exists_segments path.toList
  cases scope with
  | member v =>
    rw [host.errand_member v hsegments]
    trivial
  | global =>
    cases names with
    | nil =>
      rw [host.errand_of_segments .global hsegments, walk, pure_bind]
      exact h.dom_errandAt last
    | cons name names =>
      -- Behind the first name nothing is asked, so nothing can fail to return.
      rw [host.errand_global_cons hsegments]
      exact h.global _

theorem Returns.dom_resolvePath (h : host.Returns) (scope : Scope) (path : String) :
    (host.resolvePath scope path).Dom := by
  rw [resolvePath_eq_perform]
  exact Part.bind_dom.mpr ⟨h.dom_errand scope path, h.dom_perform _⟩

theorem Returns.dom_resolveIn (h : host.Returns) (scope : Scope) (text : String) :
    (host.resolveIn scope (.string text)).Dom := by
  cases scope with
  | member v => exact h.dom_resolvePath _ _
  | global =>
    rw [resolveIn, resolveText_eq_innermost]
    -- A literal is there without the host; else the evaluator is asked, and then perhaps the path.
    cases Literal.settled? (Literal.innermost text) with
    | some v => trivial
    | none =>
      refine Part.bind_dom.mpr ⟨h.evaluate _, ?_⟩
      split
      · trivial
      · exact h.dom_resolvePath _ _

theorem Returns.dom_configValue (h : host.Returns) (text : String) :
    (host.configValue (.string text)).Dom := by
  rw [configValue]
  refine Part.bind_dom.mpr ⟨h.dom_resolveIn .global text, ?_⟩
  split <;> trivial

end Partiality

/-! ## Resolution comes to an end -/

variable {m : Type → Type} [Monad m] [LawfulMonad m]

/-- Resolution comes to an end on every text and in every scope. What is unwrapped from a JSON string
is at least two characters shorter, and what follows the first name of a path is shorter than the
path; so half the length of the text is returns to the top enough, and the dots of the path inside
are steps down enough. Then a host that returns is all it takes. -/
theorem resolveIn_within (host : Host m) (scope : Scope) (text : String) :
    (∀ s, Literal.json? text.toList = some (.string s) → s.length + 2 ≤ text.length) ∧
    (∀ head tail, PathStep.of text = .member head tail → tail.length < text.length) ∧
    (host.resolveWithin ((scope.inside text).toList.count '.') (text.length / 2) scope
      (.string text)).run = some <$> host.resolveIn scope (.string text) ∧
    (host.configWithin ((Literal.innermost text).toList.count '.') (text.length / 2)
      (.string text)).run = some <$> host.configValue (.string text) ∧
    ∀ other : Host Part, other.Returns →
      (other.resolveIn scope (.string text)).Dom ∧ (other.configValue (.string text)).Dom :=
  ⟨fun _ => Literal.length_of_json?_string, fun _ _ => PathStep.length_tail_lt,
    host.run_resolveWithin scope text, host.run_configWithin text,
    fun _ h => ⟨h.dom_resolveIn scope text, h.dom_configValue text⟩⟩

/-- A quoted path returns to the top for its content and goes one step down. -/
theorem resolveIn_within_quotedPath :
    let globals : Members Value := [("app", .object [("rows", .number (.signed 7))])]
    let host : Host (StateM Nat) := .ofGlobals globals (fun _ _ _ => pure .undefined) none
    let other : Host Part := .ofGlobals globals (fun _ _ _ => pure .undefined) none
    Literal.json? "'app.rows'".toList = some (.string "app.rows") ∧
      "app.rows".length + 2 ≤ "'app.rows'".length ∧
      PathStep.of "'app.rows'" = .member "'app" "rows'" ∧
      "rows'".length < "'app.rows'".length ∧
      (host.resolveWithin 1 5 .global (.string "'app.rows'")).run =
        some <$> host.resolveIn .global (.string "'app.rows'") ∧
      other.Returns ∧ (other.configValue (.string "'app.rows'")).Dom := by
  intro globals host other
  have hquoted : Literal.json? "'app.rows'".toList = some (.string "app.rows") := by rfl
  have hpath : Literal.json? "app.rows".toList = none := by rfl
  have hinside : Scope.global.inside "'app.rows'" = "app.rows" := by
    rw [Scope.inside, Literal.innermost_of_string hquoted, Literal.innermost_of_not_string]
    rw [hpath]
    exact fun _ => nofun
  have hstep : PathStep.of "'app.rows'" = .member "'app" "rows'" := by rfl
  have hreturns : other.Returns := ⟨fun _ => trivial, trivial, fun _ _ _ => trivial, fun _ => trivial⟩
  obtain ⟨hunwrap, htail, hwithin, -, hdom⟩ := resolveIn_within host .global "'app.rows'"
  rw [hinside] at hwithin
  exact ⟨hquoted, hunwrap _ hquoted, hstep, htail _ _ hstep, hwithin, hreturns,
    (hdom other hreturns).2⟩

end Host

end TableMarkup
