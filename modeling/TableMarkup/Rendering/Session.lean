import TableMarkup.Rendering.Dispatch
import TableMarkup.Rendering.Recording

/-!
# Sessions

A session is a page at work: a document and the renderer that serves it. What happens to it happens
in steps, each at one element of the document, which is given by its path of child positions. A step
that fails leaves what it did before it failed.

* `Session.perform` takes one step, `Session.run` takes one after the other.
* `run_cons` unfolds a run whose host has no state.
-/

namespace TableMarkup

structure Session (ρ : Type) where
  document : Element
  renderer : ρ

inductive Action where
  | initialise
  | initialiseAll
  | initialiseMatching (s : Selector)
  /-- The paths begin at the element of the step. -/
  | initialiseEach (paths : List (List Nat))
  | raise (event : String)
  | dispatch (invocation : Invocation)

structure Step where
  path : List Nat
  action : Action

/-- A page is ready: all marked tables in the element at the path are initialised. The whole document
is at the empty path. -/
def Step.ready (path : List Nat) : Step := ⟨path, .initialiseAll⟩

inductive Report (η : Type) where
  | handles (hs : List η)
  | outcome (o : Outcome η)

structure Effect (ρ η : Type) where
  report : Except Failure (Report η)
  element : Element
  renderer : ρ

namespace Effect

variable {ρ η : Type}

def ofPass (swept : Element × Pass ρ η) : Effect ρ η :=
  { report := (swept.2.outcome.mapError .refused).map .handles
    element := swept.1
    renderer := swept.2.renderer }

def ofInitialisation (e : Element) (attempt : Attempt Refusal ρ η) : Effect ρ η :=
  { report := (attempt.outcome.mapError .refused).map fun h => .outcome (.handle h)
    element := { e with attributes := attempt.attributes }
    renderer := attempt.renderer }

def ofInvocation (e : Element) (attempt : Attempt Failure ρ (Outcome η)) : Effect ρ η :=
  { report := attempt.outcome.map .outcome
    element := { e with attributes := attempt.attributes }
    renderer := attempt.renderer }

end Effect

variable {m : Type → Type} [Monad m] {ρ η : Type}

def Engine.act (engine : Engine m) (r : Renderer ρ η) (action : Action) (state : ρ)
    (e : Element) : m (Effect ρ η) :=
  match action with
  | .initialise => Effect.ofInitialisation e <$> engine.initialise r state e
  | .initialiseAll => Effect.ofPass <$> engine.initialiseAll r state e
  | .initialiseMatching s => Effect.ofPass <$> engine.initialiseMatching r s state e
  | .initialiseEach paths => Effect.ofPass <$> engine.initialiseEach r paths state e
  | .raise event => Effect.ofPass <$> engine.raise r event state e
  | .dispatch invocation => Effect.ofInvocation e <$> engine.dispatch r invocation state e

namespace Session

/-- Takes a step. A path that leads to no element leaves the session as it is, without a report. -/
def perform (engine : Engine m) (r : Renderer ρ η) (step : Step) (s : Session ρ) :
    m (Option (Except Failure (Report η)) × Session ρ) :=
  match s.document.at? step.path with
  | none => pure (none, s)
  | some e => do
    let effect ← engine.act r step.action s.renderer e
    -- What the step did stays done, also where its report is a failure.
    pure (some effect.report,
      ⟨s.document.update (fun _ => effect.element) step.path, effect.renderer⟩)

/-- Takes steps one after the other, and gives their reports in order. -/
def run (engine : Engine m) (r : Renderer ρ η) :
    List Step → Session ρ → m (List (Option (Except Failure (Report η))) × Session ρ)
  | [], s => pure ([], s)
  | step :: steps, s => do
    let (report, s) ← perform engine r step s
    let (reports, s) ← run engine r steps s
    pure (report :: reports, s)

/-- A run with a host that has no state. -/
theorem run_cons (engine : Engine Id) (r : Renderer ρ η) (step : Step) (steps : List Step)
    (s : Session ρ) :
    run engine r (step :: steps) s =
      ((perform engine r step s).1 :: (run engine r steps (perform engine r step s).2).1,
        (run engine r steps (perform engine r step s).2).2) :=
  rfl

end Session

end TableMarkup
