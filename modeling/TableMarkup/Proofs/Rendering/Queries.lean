import TableMarkup.Proofs.Markup.Places
import TableMarkup.Rendering.Session

/-!
# Queries in a session

Some steps only ask: an event that nothing listens for, a method that resolves a value or builds a
configuration, a name that no method has. They leave the session as it is, so a run may do without
them. Other steps are an initialisation by another name.

* `Method.IsUnknown`, `Action.IsQuery`, `Action.Initialises`: the kinds of steps that are meant.
* `Engine.dispatch_of_isUnknown`: a name that no method has is turned down before the host is asked.
* `Session.perform_of_isQuery`, `Session.perform_of_initialises`: what one such step does.
* `Session.Edit` is what may become of one step of a run; `Session.run_edited` compares the run with
  what is left of it, report by report.
-/

namespace TableMarkup

/-- A name, and not the name of a method. -/
def Method.IsUnknown (name : String) : Prop :=
  name ≠ "" ∧ ∀ method : Method, method.name ≠ name

/-- Steps that ask. -/
inductive Action.IsQuery : Action → Prop where
  | event (name : String) (h : name ≠ Engine.initialiseEvent) : IsQuery (.raise name)
  | named (method : Method) (h : method ≠ .initialise) (args : List Value) :
      IsQuery (.dispatch (.named method.name args))
  | unknown (name : String) (h : Method.IsUnknown name) (args : List Value) :
      IsQuery (.dispatch (.named name args))

/-- Calls that come to an initialisation. -/
inductive Action.Initialises : Action → Prop where
  | default : Initialises (.dispatch .default)
  | options (given : Members Json) : Initialises (.dispatch (.options given))
  | nameless (args : List Value) : Initialises (.dispatch (.named "" args))
  | named (args : List Value) : Initialises (.dispatch (.named Method.initialise.name args))

/-! ## Names of methods -/

namespace Method

theorem ofName?_name (method : Method) : ofName? method.name = some method := by
  cases method <;> decide

theorem name_ne_empty (method : Method) : method.name ≠ "" := by
  cases method <;> decide

theorem ofName?_of_isUnknown {name : String} (h : IsUnknown name) : ofName? name = none := by
  rw [ofName?, List.find?_eq_none]
  intro method _
  simpa using h.2 method

end Method

namespace Invocation

theorem method_named (method : Method) (args : List Value) :
    (Invocation.named method.name args).method = .ok method := by
  have hname : ¬ method.name.isEmpty := by
    rw [String.isEmpty_iff]
    exact method.name_ne_empty
  rw [Invocation.method, if_neg hname, Method.ofName?_name]

theorem method_of_isUnknown {name : String} (h : Method.IsUnknown name) (args : List Value) :
    (Invocation.named name args).method = .error (.unknownMethod name) := by
  have hname : ¬ name.isEmpty := by
    rw [String.isEmpty_iff]
    exact h.1
  rw [Invocation.method, if_neg hname, Method.ofName?_of_isUnknown h]

end Invocation

/-! ## One step -/

variable {m : Type → Type} [Monad m] {ρ η : Type}

/-- A name that no method has is turned down, and the host is not asked. -/
theorem Engine.dispatch_of_isUnknown (engine : Engine m) (r : Renderer ρ η) {name : String}
    (h : Method.IsUnknown name) (args : List Value) (state : ρ) (e : Element) :
    engine.dispatch r (.named name args) state e =
      pure ⟨.error (.unknownMethod name), e.attributes, state⟩ := by
  rw [Engine.dispatch, Invocation.method_of_isUnknown h]

/-- What asks leaves the element and the renderer as they are. -/
theorem Engine.act_of_isQuery (engine : Engine Id) (r : Renderer ρ η) {action : Action}
    (h : action.IsQuery) (state : ρ) (e : Element) :
    (engine.act r action state e).element = e ∧
      (engine.act r action state e).renderer = state := by
  have hsame : Element.wear e.attributes e = e := e.wear_attributes
  cases h with
  | event name h =>
    rw [Engine.act, Engine.raise, if_neg h]
    exact ⟨rfl, rfl⟩
  | named method h args =>
    rw [Engine.act, Engine.dispatch, Invocation.method_named]
    -- The other three methods end in an answer; the element gets its own attributes back.
    cases method with
    | resolve => exact ⟨hsame, rfl⟩
    | configValue => exact ⟨hsame, rfl⟩
    | buildConfig => exact ⟨hsame, rfl⟩
    | initialise => exact absurd rfl h
  | unknown name h args =>
    rw [Engine.act, Engine.dispatch_of_isUnknown _ _ h]
    exact ⟨hsame, rfl⟩

theorem Invocation.method_of_initialises {invocation : Invocation}
    (h : (Action.dispatch invocation).Initialises) : invocation.method = .ok .initialise := by
  cases h with
  | default => rfl
  | options given => rfl
  | nameless args => rfl
  | named args => exact method_named .initialise args

/-- A call that comes to an initialisation is one, and is reported as one. -/
theorem Engine.act_of_initialises [LawfulMonad m] (engine : Engine m) (r : Renderer ρ η)
    {action : Action} (h : action.Initialises) (state : ρ) (e : Element) :
    engine.act r action state e = engine.act r .initialise state e := by
  have hdispatch {invocation : Invocation} (h : (Action.dispatch invocation).Initialises) :
      engine.act r (.dispatch invocation) state e = engine.act r .initialise state e := by
    show Effect.ofInvocation e <$> engine.dispatch r invocation state e =
      Effect.ofInitialisation e <$> engine.initialise r state e
    unfold Engine.dispatch
    rw [Invocation.method_of_initialises h]
    dsimp only
    rw [bind_pure_comp, Functor.map_map]
    congr 1
    funext ⟨outcome, attributes, renderer⟩
    -- A refusal of the renderer is reported as such in both spellings.
    cases outcome <;> rfl
  cases action with
  | dispatch invocation => exact hdispatch h
  | _ => nomatch h

/-! ## Runs -/

namespace Session

/-- A step that asks leaves the session as it is. -/
theorem perform_of_isQuery (engine : Engine Id) (r : Renderer ρ η) {step : Step}
    (h : step.action.IsQuery) (s : Session ρ) : (perform engine r step s).2 = s := by
  unfold perform
  -- A path that leads nowhere does nothing by itself.
  split
  · rfl
  · next e he =>
    obtain ⟨helement, hrenderer⟩ := engine.act_of_isQuery r h s.renderer e
    show (⟨s.document.update (fun _ => (engine.act r step.action s.renderer e).element) step.path,
      (engine.act r step.action s.renderer e).renderer⟩ : Session ρ) = s
    -- The element that the action gives back is put where it stood.
    rw [helement, hrenderer, Element.update_of_at? he]

/-- A step that comes to an initialisation is the same as the plain one. -/
theorem perform_of_initialises [LawfulMonad m] (engine : Engine m) (r : Renderer ρ η) {step : Step}
    (h : step.action.Initialises) (s : Session ρ) :
    perform engine r step s = perform engine r ⟨step.path, .initialise⟩ s := by
  unfold perform
  split
  · next he => rw [he]
  · next e he => rw [he, engine.act_of_initialises r h]

/-- What may become of a step of a run: a step that asks may be left out, and a call that comes to an
initialisation may be replaced by one. -/
inductive Becomes : Step → Option Step → Prop where
  | kept {step : Step} : Becomes step (some step)
  | dropped {step : Step} (h : step.action.IsQuery) : Becomes step none
  | plain {step : Step} (h : step.action.Initialises) :
      Becomes step (some ⟨step.path, .initialise⟩)

/-- A step of a run, and what becomes of it. -/
structure Edit where
  step : Step
  left : Option Step
  becomes : Becomes step left

/-- The reports of the steps that something is left of. -/
def Edit.reports {α : Type} (edits : List Edit) (reports : List α) : List α :=
  (edits.zip reports).filterMap fun x => x.1.left.map fun _ => x.2

section Runs

variable (engine : Engine Id) (r : Renderer ρ η)

theorem length_run (steps : List Step) (s : Session ρ) :
    (run engine r steps s).1.length = steps.length := by
  induction steps generalizing s with
  | nil => rfl
  | cons step steps ih => rw [run_cons, List.length_cons, ih, List.length_cons]

/-- What is left of an edited run gives the reports that its steps had in the whole run, and ends
where the whole run ends. -/
theorem run_left (edits : List Edit) (s : Session ρ) :
    run engine r (edits.filterMap Edit.left) s =
      (Edit.reports edits (run engine r (edits.map Edit.step) s).1,
        (run engine r (edits.map Edit.step) s).2) := by
  -- The two runs are in the same session before each step: queries do not change it, and the
  -- replaced calls change it alike.
  induction edits generalizing s with
  | nil => rfl
  | cons edit edits ih =>
    obtain ⟨step, left, becomes⟩ := edit
    have hlater := ih (perform engine r step s).2
    rw [List.map_cons, run_cons]
    cases becomes with
    | kept =>
      show run engine r (step :: edits.filterMap Edit.left) s = _
      rw [run_cons, hlater]
      rfl
    | dropped h =>
      -- The session is the same after the step, and its report is left out.
      have hsame := perform_of_isQuery engine r h s
      show run engine r (edits.filterMap Edit.left) s = _
      rw [hsame] at hlater ⊢
      rw [hlater]
      rfl
    | plain h =>
      -- The plain initialisation does and reports what the call would have.
      show run engine r (⟨step.path, .initialise⟩ :: edits.filterMap Edit.left) s = _
      rw [run_cons, ← perform_of_initialises engine r h, hlater]
      rfl

end Runs

/-- Nothing is asked of the host for a name that no method has, and it is reported as unknown. -/
theorem perform_of_isUnknown [LawfulMonad m] (engine : Engine m) (r : Renderer ρ η) {name : String}
    (h : Method.IsUnknown name) (args : List Value) (path : List Nat) (s : Session ρ) :
    perform engine r ⟨path, .dispatch (.named name args)⟩ s =
      pure ((s.document.at? path).map fun _ => .error (.unknownMethod name), s) := by
  unfold perform
  split
  · next he => rw [he, Option.map_none]
  · next e he =>
    have hsame : Element.wear e.attributes e = e := e.wear_attributes
    rw [he, Engine.act, engine.dispatch_of_isUnknown r h, map_pure, pure_bind]
    show pure (_, (⟨s.document.update (fun _ => Element.wear e.attributes e) path,
      s.renderer⟩ : Session ρ)) = _
    rw [hsame, Element.update_of_at? he]
    rfl

/-- Queries may be left out of a run, and calls that come to an initialisation may be replaced by
one: the other reports, the document and the renderer stay what they are. A name that no method has
is reported as unknown, and no host is asked anything. -/
theorem run_edited (engine : Engine Id) (r : Renderer ρ η) (edits : List Edit) (s : Session ρ) :
    let whole := run engine r (edits.map Edit.step) s
    let left := run engine r (edits.filterMap Edit.left) s
    whole.1.length = edits.length ∧ left.1 = Edit.reports edits whole.1 ∧ left.2 = whole.2 ∧
      ∀ (m : Type → Type) [Monad m] [LawfulMonad m] (asked : Engine m) (name : String),
        Method.IsUnknown name → ∀ args path,
          perform asked r ⟨path, .dispatch (.named name args)⟩ s =
            pure ((s.document.at? path).map fun _ => .error (.unknownMethod name), s) := by
  intro whole left
  have hleft := run_left engine r edits s
  -- The comparison of the runs gives reports and session at once.
  refine ⟨?_, (congrArg Prod.fst hleft :), (congrArg Prod.snd hleft :), ?_⟩
  · rw [length_run, List.length_map]
  · intro m _ _ asked name hname args path
    exact perform_of_isUnknown asked r hname args path s

/-- Of a click, an initialisation of two tables in the order of the caller, a call without a name and
a question for the configuration, the two that initialise are left. Nothing is called `destroy`. -/
theorem run_edited_call :
    let engine : Engine Id := ⟨Host.ofJson .null, .standard⟩
    let page : Element := ⟨"body", .empty, [⟨"table", .empty, []⟩, ⟨"table", .empty, []⟩]⟩
    let s : Session Recording := ⟨page, .fresh none⟩
    let edits : List Edit :=
      [⟨⟨[], .raise "click"⟩, none, .dropped (.event "click" (by decide))⟩,
        ⟨⟨[], .initialiseEach [[1], [0]]⟩, some ⟨[], .initialiseEach [[1], [0]]⟩, .kept⟩,
        ⟨⟨[0], .dispatch .default⟩, some ⟨[0], .initialise⟩, .plain .default⟩,
        ⟨⟨[0], .dispatch (.named Method.buildConfig.name [])⟩, none,
          .dropped (.named .buildConfig (by decide) [])⟩]
    let whole := run engine Recording.renderer (edits.map Edit.step) s
    let left := run engine Recording.renderer
      [⟨[], .initialiseEach [[1], [0]]⟩, ⟨[0], .initialise⟩] s
    whole.1.length = 4 ∧ left.1 = Edit.reports edits whole.1 ∧ left.2 = whole.2 ∧
      Method.IsUnknown "destroy" ∧
      perform engine Recording.renderer ⟨[0], .dispatch (.named "destroy" [])⟩ s =
        (some (.error (.unknownMethod "destroy")), s) := by
  intro engine page s edits whole left
  have hdestroy : Method.IsUnknown "destroy" := ⟨by decide, fun method => by cases method <;> decide⟩
  obtain ⟨hlength, hreports, hafter, hunknown⟩ := run_edited engine Recording.renderer edits s
  exact ⟨hlength, hreports, hafter, hdestroy, hunknown Id engine "destroy" hdestroy [] [0]⟩

end Session

end TableMarkup
