import TableMarkup.Proofs.Resolution.Errands
import TableMarkup.Proofs.Resolution.IntegerForm

/-!
# What a resolution asks of the host

Looking a global name up, running a function and evaluating source text are all that a resolution can
ask of a host. However many JSON strings are wrapped around a text, it asks for one evaluation at most,
after it for one look-up at most, and after that for one call at most.

* `Host.interview`: the resolution of a text inside which there is no further JSON string, with what
  it asks.
* `Host.resolveText_eq_innermost`: a text stands for what the text inside all its JSON strings stands
  for.
* `Host.run_resolveText_traced`: every resolution is the interview on the innermost text, by its value
  and by the list of its requests.
* `Host.GivesNoFunction`: a host whose evaluator might as well be missing.
-/

namespace TableMarkup

/-! ## The interview -/

/-- The value of a text that is a literal of a form about which the host is not asked. -/
def Literal.settled? (text : String) : Option Value :=
  match Literal.boolean? text with
  | some b => some (.bool b)
  | none =>
    match Literal.integer? text.toList with
    | some n => some (.number n)
    | none => (Literal.json? text.toList).map .ofJson

namespace Host

variable {m : Type → Type} [Monad m]

/-- What a text inside all JSON strings stands for, with what the host is asked for it: nothing for
a literal; and otherwise for a function of this source, if the host is able to evaluate, and for what
the path comes to, if it was not given a function. -/
def interview (host : Host m) (text : String) : m (Value × Asked) :=
  match Literal.settled? text with
  | some v => pure (v, ⟨none, none, none⟩)
  | none => do
    let source := host.evaluator.map fun _ => Literal.functionSource text
    match ← host.evaluate (Literal.functionSource text) with
    | some (.function f members) => pure (.function f members, ⟨source, none, none⟩)
    | _ => do
      let errand ← host.errand .global text
      let v ← host.perform errand
      pure (v, ⟨source, PathStep.globalName? .global text, errand.call?⟩)

variable [LawfulMonad m] (host : Host m)

/-- To try the form of functions is to evaluate and to go on if no function came back. -/
theorem function?_bind (text : String) (path : m Value) :
    (do
      match ← Literal.function? host text with
      | some f => pure f
      | none => path) = (do
      match ← host.evaluate (Literal.functionSource text) with
      | some (.function f members) => pure (.function f members)
      | _ => path) := by
  rw [Literal.function?, bind_map_left]
  refine bind_congr fun answer => ?_
  -- Whatever else than a function comes back is as good as nothing.
  cases answer with
  | none => rfl
  | some v => cases v <;> rfl

omit [LawfulMonad m] in
/-- A JSON string stands for what its content stands for, in whatever way that comes about. -/
theorem resolveText_of_string {text s : String}
    (h : Literal.json? text.toList = some (.string s)) :
    host.resolveText text = host.resolveText s := by
  rw [resolveText_eq, Literal.boolean?_of_string h, Literal.integer?_of_string h, h]

/-- A text that is no JSON string is settled as a literal, or by the host. -/
theorem resolveText_of_not_string {text : String}
    (h : ∀ s, Literal.json? text.toList ≠ some (.string s)) :
    host.resolveText text =
      match Literal.settled? text with
      | some v => pure v
      | none => (do
        match ← host.evaluate (Literal.functionSource text) with
        | some (.function f members) => pure (.function f members)
        | _ => host.resolvePath .global text) := by
  rw [resolveText_eq, Literal.settled?]
  cases Literal.boolean? text with
  | some b => rfl
  | none =>
    cases Literal.integer? text.toList with
    | some n => rfl
    | none =>
      -- JSON other than a string is a value; without JSON the text is left to the host.
      cases hj : Literal.json? text.toList with
      | none => exact host.function?_bind text _
      | some j =>
        cases j with
        | string s => exact absurd hj (h s)
        | _ => rfl

/-- What a text stands for is settled by what is inside all its JSON strings. -/
theorem resolveText_eq_innermost (text : String) :
    host.resolveText text =
      match Literal.settled? (Literal.innermost text) with
      | some v => pure v
      | none => (do
        match ← host.evaluate (Literal.functionSource (Literal.innermost text)) with
        | some (.function f members) => pure (.function f members)
        | _ => host.resolvePath .global (Literal.innermost text)) := by
  -- On the unwrapping: both sides go from a JSON string to its content.
  induction text using Literal.innermost_induction with
  | inner text h =>
    rw [Literal.innermost_of_not_string h]
    exact host.resolveText_of_not_string h
  | wrapped text s hs ih =>
    rw [Literal.innermost_of_string hs, host.resolveText_of_string hs]
    exact ih

/-! ## Requests -/

variable {host}

/-- An evaluation is written down if the host is able to evaluate, and otherwise not. -/
theorem run_evaluate_traced (source : String) (log : List Request) :
    (host.traced.evaluate source).run log =
      (fun answer =>
        (answer, log ++ Asked.requests ⟨host.evaluator.map fun _ => source, none, none⟩)) <$>
          host.evaluate source := by
  -- A host without an evaluator is not asked, so nothing is written down.
  cases h : host.evaluator with
  | none => simp [evaluate, traced, h, Asked.requests]
  | some evaluate => simp [Host.evaluate, traced, h, Asked.requests]

/-- What is written down in a resolution is what the interview asks. -/
theorem run_resolveText_traced (text : String) (log : List Request) :
    (host.traced.resolveText text).run log =
      (fun (v, asked) => (v, log ++ asked.requests)) <$>
        host.interview (Literal.innermost text) := by
  rw [resolveText_eq_innermost, interview]
  cases Literal.settled? (Literal.innermost text) with
  | some v => simp [Asked.requests]
  | none =>
    dsimp only
    rw [StateT.run_bind, run_evaluate_traced, bind_map_left, map_bind]
    refine bind_congr fun answer => ?_
    -- Without a function the path is gone, and what it asks is written down behind the evaluation.
    have hpath : (host.traced.resolvePath .global (Literal.innermost text)).run
          (log ++ Asked.requests ⟨host.evaluator.map fun _ =>
            Literal.functionSource (Literal.innermost text), none, none⟩) =
        (fun (v, asked) => (v, log ++ Asked.requests asked)) <$> (do
          let errand ← host.errand .global (Literal.innermost text)
          let v ← host.perform errand
          pure (v, ⟨host.evaluator.map fun _ => Literal.functionSource (Literal.innermost text),
            PathStep.globalName? .global (Literal.innermost text), errand.call?⟩)) := by
      rw [run_resolvePath_traced]
      simp [Asked.requests]
    cases answer with
    | none => exact hpath
    | some v =>
      cases v with
      | function f members => simp
      | _ => exact hpath

/-! ## Evaluation without functions -/

/-- Whatever the host answers when it is asked to evaluate, it is no function. -/
def GivesNoFunction (host : Host m) : Prop :=
  ∀ source, (Option.filter Value.isFunction ·) <$> host.evaluate source =
    (fun _ => none) <$> host.evaluate source

omit [LawfulMonad m] in
theorem function?_of_givesNoFunction (h : host.GivesNoFunction) (text : String) :
    Literal.function? host text =
      (fun _ => none) <$> host.evaluate (Literal.functionSource text) := by
  rw [Literal.function?]
  exact h (Literal.functionSource text)

/-- A host that gives no function goes on with the path whatever it answers. -/
theorem evaluate_bind_of_givesNoFunction (h : host.GivesNoFunction) (source : String) {α : Type}
    (found : Callable → List (String × Value) → m α) (path : m α) :
    (do
      match ← host.evaluate source with
      | some (.function f members) => found f members
      | _ => path) = host.evaluate source *> path := by
  -- Only functions in the answer are looked at, so all else may be filtered out of it.
  have hfilter : (do
      match ← host.evaluate source with
      | some (.function f members) => found f members
      | _ => path) = (do
      match ← (Option.filter Value.isFunction ·) <$> host.evaluate source with
      | some (.function f members) => found f members
      | _ => path) := by
    rw [bind_map_left]
    refine bind_congr fun answer => ?_
    cases answer with
    | none => rfl
    | some v => cases v <;> rfl
  rw [hfilter, h source, bind_map_left, seqRight_eq_bind]

/-- The answers of such a host count for nothing: without its evaluator the outcome is the same. -/
theorem resolveText_of_givesNoFunction (h : host.GivesNoFunction) (text : String) :
    host.resolveText text =
      if (Literal.settled? (Literal.innermost text)).isSome then
        { host with evaluator := none }.resolveText text
      else
        host.evaluate (Literal.functionSource (Literal.innermost text)) *>
          { host with evaluator := none }.resolveText text := by
  rw [resolveText_eq_innermost, resolveText_eq_innermost]
  cases Literal.settled? (Literal.innermost text) with
  | some v => rfl
  | none =>
    -- A path does not ask the evaluator.
    have hpath : { host with evaluator := none }.resolvePath .global (Literal.innermost text) =
        host.resolvePath .global (Literal.innermost text) := by
      apply resolvePath_congr
      · rfl
      · rfl
      · exact fun _ _ => rfl
    have hanswer : { host with evaluator := none }.evaluate
        (Literal.functionSource (Literal.innermost text)) = pure none := rfl
    dsimp only
    rw [evaluate_bind_of_givesNoFunction h, if_neg (by decide), hanswer, pure_bind, hpath]

/-! ## What a resolution asks -/

/-- What a resolution asks of the host, however many JSON strings are wrapped around the text. It asks
what the interview asks on the text inside: for one evaluation, then for one look-up and then for one
call at most, and so does the reading of an option. A literal inside settles it without a question, so does a function
that is answered, and what is left is the path inside; a host that gives no function might as well be
unable to evaluate. And a JSON string is never tried as anything else, whatever becomes of its
content. -/
theorem resolve_asks_once (host : Host m) (text : String) :
    let inside := Literal.innermost text
    let source := Literal.functionSource inside
    let bare : Host m := { host with evaluator := none }
    (∀ log, (host.traced.resolve (.string text)).run log =
      (fun (v, asked) => (v, log ++ asked.requests)) <$> host.interview inside) ∧
    (∀ log, (host.traced.configValue (.string text)).run log =
      (fun (v, asked) => (if v.isUndefined then .string text else v, log ++ asked.requests)) <$>
        host.interview inside) ∧
    host.resolve (.string text) =
      (match Literal.settled? inside with
      | some v => pure v
      | none => do
        match ← host.evaluate source with
        | some (.function f members) => pure (.function f members)
        | _ => host.resolvePath .global inside) ∧
    (host.GivesNoFunction → host.resolve (.string text) =
      if (Literal.settled? inside).isSome then bare.resolve (.string text)
      else host.evaluate source *> bare.resolve (.string text)) ∧
    ∀ s, Literal.json? text.toList = some (.string s) →
      host.resolve (.string text) = host.resolve (.string s) := by
  refine ⟨run_resolveText_traced text, fun log => ?_, host.resolveText_eq_innermost text,
    fun h => resolveText_of_givesNoFunction h text, fun s => host.resolveText_of_string⟩
  -- The reading of an option resolves once and puts the raw text in the place of nothing.
  have hconfig : host.traced.configValue (.string text) =
      (fun v => if v.isUndefined then .string text else v) <$>
        host.traced.resolve (.string text) := by
    rw [configValue, ← bind_pure_comp]
    refine bind_congr fun v => ?_
    cases v <;> rfl
  rw [hconfig, StateT.run_map, resolve, resolveIn, run_resolveText_traced, Functor.map_map]

/-- Inside its quotes this text is a call: the host evaluates it to nothing of use, looks the name up,
and then runs the function. -/
theorem resolve_asks_once_quotedCall :
    let globals : Members Value := [("add", .function ⟨0, "add"⟩ [])]
    let host : Host (StateM Nat) := .ofGlobals globals
      (fun _ _ args => do modify (· + 1); pure (.json (.array args)))
      (some fun _ => do modify (· + 10); pure (some .null))
    ((host.traced.resolve (.string "'add(1,[])'")).run []).run 0 =
        ((.json (.array [.ofNat 1, .array []]),
          [.evaluate "(add(1,[]))", .lookUp "add",
            .call "add" (.object globals) [.ofNat 1, .array []]]), 11) ∧
      Literal.json? "'add(1,[])'".toList = some (.string "add(1,[])") ∧
      host.resolve (.string "'add(1,[])'") = host.resolve (.string "add(1,[])") ∧
      host.GivesNoFunction ∧
      host.resolve (.string "'add(1,[])'") = host.evaluate "(add(1,[]))" *>
        { host with evaluator := none }.resolve (.string "'add(1,[])'") := by
  intro globals host
  have hquoted : Literal.json? "'add(1,[])'".toList = some (.string "add(1,[])") := by rfl
  have hcall : Literal.json? "add(1,[])".toList = none := by rfl
  have hinside : Literal.innermost "'add(1,[])'" = "add(1,[])" := by
    rw [Literal.innermost_of_string hquoted, Literal.innermost_of_not_string]
    rw [hcall]
    exact fun _ => nofun
  have hsettled : Literal.settled? "add(1,[])" = none := by rfl
  have hmute : host.GivesNoFunction := fun _ => rfl
  have hsegments : PathStep.segments "add(1,[])".toList = [] ++ ["add(1,[])".toList] :=
    PathStep.segments_of_not_mem (by decide)
  have herrand : host.errand .global "add(1,[])" =
      pure (.call ⟨0, "add"⟩ (.object globals) [.ofNat 1, .array []]) := by
    rw [host.errand_of_segments .global hsegments]
    rfl
  obtain ⟨htraced, -, -, hbare, hstring⟩ := resolve_asks_once host "'add(1,[])'"
  rw [hinside] at htraced hbare
  refine ⟨?_, hquoted, hstring _ hquoted, hmute, ?_⟩
  · rw [htraced, interview, hsettled, herrand, PathStep.globalName?_single hsegments]
    rfl
  · rw [hbare hmute, hsettled]
    rfl

end Host

end TableMarkup
