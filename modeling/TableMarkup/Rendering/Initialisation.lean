import TableMarkup.Rendering.Renderer
import TableMarkup.Table.Build

/-!
# Initialisation

To initialise an element is to build its configuration, to hand both to the renderer, and to take the
marker off the element if the renderer accepts it. A pass does so with many elements, in document
order or in an order that the caller gives, and ends at the first refusal.

* `Engine.initialise` initialises one element.
* `Engine.sweep` passes over a tree and initialises the elements that a selector picks.
* `Engine.visitEach` does the same with elements that are given by their paths, in the order given.
* `Engine.initialiseAll`, `Engine.initialiseMatching` and `Engine.initialiseEach` are whole passes.
* `Engine.raise` answers an event on a page.
-/

namespace TableMarkup

structure Pass (ρ η : Type) where
  renderer : ρ
  handles : List η
  refusal : Option Refusal

namespace Pass

variable {ρ η : Type}

def start (renderer : ρ) : Pass ρ η :=
  { renderer, handles := [], refusal := none }

def after (pass : Pass ρ η) (attempt : Attempt Refusal ρ η) : Pass ρ η :=
  match attempt.outcome with
  | .ok handle => { pass with renderer := attempt.renderer, handles := pass.handles ++ [handle] }
  | .error refusal => { pass with renderer := attempt.renderer, refusal := some refusal }

/-- What the pass comes to: all handles, or the refusal that ended it. -/
def outcome (pass : Pass ρ η) : Except Refusal (List η) :=
  match pass.refusal with
  | some refusal => .error refusal
  | none => .ok pass.handles

end Pass

namespace Engine

variable {m : Type → Type} [Monad m] {ρ η : Type}

def initialise (engine : Engine m) (r : Renderer ρ η) (state : ρ) (e : Element) :
    m (Attempt Refusal ρ η) := do
  let config ← engine.buildConfig e
  let attempt := r.initialise state e config
  match attempt.outcome with
  | .ok _ =>
    pure { attempt with attributes := attempt.attributes.erase engine.settings.markerAttribute }
  | .error _ => pure attempt

/-- Initialises an element in the course of a pass, if it is chosen and the pass has not ended. -/
def visit (engine : Engine m) (r : Renderer ρ η) (chosen : Bool) (e : Element)
    (pass : Pass ρ η) : m (Attributes × Pass ρ η) :=
  if chosen && pass.refusal.isNone then do
    let attempt ← engine.initialise r pass.renderer e
    pure (attempt.attributes, pass.after attempt)
  else pure (e.attributes, pass)

mutual
/-- Passes over an element and its descendants in document order. -/
def sweep (engine : Engine m) (r : Renderer ρ η) (s : Selector) :
    Element → Pass ρ η → m (Element × Pass ρ η)
  | ⟨tag, attributes, children⟩, pass => do
    let e : Element := ⟨tag, attributes, children⟩
    -- What is inside the element is seen after it, whether the element is picked or not.
    let (attributes, pass) ← engine.visit r (s.picks e) e pass
    let (children, pass) ← engine.sweepAll r s children pass
    pure (⟨tag, attributes, children⟩, pass)

def sweepAll (engine : Engine m) (r : Renderer ρ η) (s : Selector) :
    List Element → Pass ρ η → m (List Element × Pass ρ η)
  | [], pass => pure ([], pass)
  | e :: es, pass => do
    let (e, pass) ← engine.sweep r s e pass
    let (es, pass) ← engine.sweepAll r s es pass
    pure (e :: es, pass)
end

def initialiseMatching (engine : Engine m) (r : Renderer ρ η) (s : Selector) (state : ρ)
    (root : Element) : m (Element × Pass ρ η) :=
  engine.sweep r s root (.start state)

def initialiseAll (engine : Engine m) (r : Renderer ρ η) (state : ρ) (root : Element) :
    m (Element × Pass ρ η) :=
  engine.initialiseMatching r engine.settings.selector state root

/-- Initialises the elements at the given paths, marked or not, in the order in which they are given.
A path that leads to no element is passed over. -/
def visitEach (engine : Engine m) (r : Renderer ρ η) :
    List (List Nat) → Element → Pass ρ η → m (Element × Pass ρ η)
  | [], root, pass => pure (root, pass)
  | path :: paths, root, pass =>
    match root.at? path with
    | none => engine.visitEach r paths root pass
    | some e => do
      let (attributes, pass) ← engine.visit r true e pass
      engine.visitEach r paths (root.update (fun e => { e with attributes }) path) pass

/-- Initialises elements that the caller names by their paths, in the caller's order, until one is
refused. -/
def initialiseEach (engine : Engine m) (r : Renderer ρ η) (paths : List (List Nat)) (state : ρ)
    (root : Element) : m (Element × Pass ρ η) :=
  engine.visitEach r paths root (.start state)

def initialiseEvent : String := "initialize"

/-- Answers an event on an element: `initialize` initialises every marked table there, and any other
event does nothing. -/
def raise (engine : Engine m) (r : Renderer ρ η) (event : String) (state : ρ)
    (target : Element) : m (Element × Pass ρ η) :=
  if event = initialiseEvent then engine.initialiseAll r state target
  else pure (target, .start state)

def incompatibility (engine : Engine m) (r : Renderer ρ η) (state : ρ) :
    Option Incompatibility :=
  Incompatibility.of engine.settings.minRendererVersion (r.version state)

end Engine

end TableMarkup
