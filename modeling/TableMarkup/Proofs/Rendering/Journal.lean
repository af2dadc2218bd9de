import TableMarkup.Proofs.Rendering.HandOver
import TableMarkup.Rendering.Session

/-!
# Journals

Whatever happens in a session, the document and the renderer change in hand-overs only. The journal
of a run is the list of its hand-overs, over all steps. Steps that only ask for something leave no
trace in it, and a refusal ends its own step, not the run.

* `Session.handOver`, `Session.replay`: the session after hand-overs.
* `Engine.entries`: the hand-overs of an action, and `Engine.act_eq_replay`: nothing else happens.
* `Session.journal`, `Session.run_eq_replay`: the same for a whole run.
-/

namespace TableMarkup

variable {ρ η : Type}

namespace Session

def handOver (r : Renderer ρ η) (marker : String) (s : Session ρ) (h : HandOver) : Session ρ :=
  match s.document.at? h.path with
  | none => s
  | some e =>
    let attempt := r.attempt marker s.renderer e h.config
    ⟨s.document.update (Element.wear attempt.attributes) h.path, attempt.renderer⟩

def replay (r : Renderer ρ η) (marker : String) (s : Session ρ) (hs : List HandOver) : Session ρ :=
  hs.foldl (handOver r marker) s

/-- The session that a page belongs to, whatever handles the pass has given. -/
def ofPage (page : Element × Pass ρ η) : Session ρ :=
  ⟨page.1, page.2.renderer⟩

theorem handOver_of_at? (r : Renderer ρ η) (marker : String) {s : Session ρ} {h : HandOver}
    {e : Element} (he : s.document.at? h.path = some e) :
    s.handOver r marker h =
      ⟨s.document.update (Element.wear (r.attempt marker s.renderer e h.config).attributes) h.path,
        (r.attempt marker s.renderer e h.config).renderer⟩ := by
  simp [handOver, he]

theorem replay_append (r : Renderer ρ η) (marker : String) (s : Session ρ)
    (hs ks : List HandOver) :
    s.replay r marker (hs ++ ks) = (s.replay r marker hs).replay r marker ks :=
  List.foldl_append

theorem replay_cons (r : Renderer ρ η) (marker : String) (s : Session ρ) (h : HandOver)
    (hs : List HandOver) :
    s.replay r marker (h :: hs) = (s.handOver r marker h).replay r marker hs :=
  rfl

/-- A hand-over does the same to a page and to its session, because what it does hangs on the tree
and the state of the renderer alone. -/
theorem ofPage_handOver (r : Renderer ρ η) (marker : String) (page : Element × Pass ρ η)
    (h : HandOver) :
    ofPage (r.handOver marker page h) = (ofPage page).handOver r marker h := by
  cases he : page.1.at? h.path with
  | none => simp [ofPage, Renderer.handOver, handOver, he]
  | some e =>
    have hrenderer (attempt : Attempt Refusal ρ η) :
        (page.2.after attempt).renderer = attempt.renderer := by
      cases hout : attempt.outcome <;> simp [Pass.after, hout]
    simp [ofPage, Renderer.handOver, handOver, he, hrenderer]

/-- So do hand-overs in a row. -/
theorem ofPage_replay (r : Renderer ρ η) (marker : String) (page : Element × Pass ρ η)
    (hs : List HandOver) :
    ofPage (r.replay marker page hs) = (ofPage page).replay r marker hs := by
  induction hs generalizing page with
  | nil => rfl
  | cons h hs ih =>
    rw [replay_cons, ← ofPage_handOver, ← ih]
    rfl

/-- Hand-overs inside an element change the document in that element only. -/
theorem replay_below (r : Renderer ρ η) (marker : String) {document e : Element} {path : List Nat}
    (he : document.at? path = some e) (state : ρ) (hs : List HandOver) :
    replay r marker ⟨document, state⟩ (hs.map (HandOver.below path)) =
      ⟨document.update (fun _ => (replay r marker ⟨e, state⟩ hs).document) path,
        (replay r marker ⟨e, state⟩ hs).renderer⟩ := by
  -- The same was said of pages; the handles of the pass are forgotten.
  have hpage := congrArg ofPage (r.replay_below marker he (.start state) hs)
  have hinner := ofPage_replay r marker (e, .start state) hs
  rw [ofPage_replay] at hpage
  simp only [ofPage, Pass.start] at hpage hinner
  rw [hpage, ← hinner]

end Session

/-! ## Actions -/

namespace Engine

variable {m : Type → Type} [Monad m]

/-- The paths that an action offers, as seen from its element. -/
def aims (engine : Engine m) (e : Element) : Action → List (List Nat)
  | .initialise => [[]]
  | .initialiseAll => engine.settings.selector.paths e
  | .initialiseMatching s => s.paths e
  | .initialiseEach paths => paths
  | .raise event => if event = initialiseEvent then engine.settings.selector.paths e else []
  | .dispatch invocation =>
    match invocation.method with
    | .ok .initialise => [[]]
    | _ => []

/-- What an action asks of the host without handing anything over. -/
def enquire (engine : Engine m) (e : Element) : Action → m Unit
  | .dispatch invocation =>
    match invocation.method with
    | .ok .resolve => (fun _ => ()) <$> engine.host.resolve invocation.argument
    | .ok .configValue => (fun _ => ()) <$> engine.host.configValue invocation.argument
    | .ok .buildConfig => (fun _ => ()) <$> engine.buildConfig e
    | _ => pure ()
  | _ => pure ()

/-- The hand-overs of an action, as seen from its element. -/
def entries (engine : Engine m) (r : Renderer ρ η) (action : Action) (state : ρ) (e : Element) :
    m (List HandOver) := do
  engine.enquire e action
  engine.offer r (engine.aims e action) (e, .start state)

variable [LawfulMonad m]

/-- A pass changes its element and the renderer by what it offers. -/
theorem ofPass_offered (engine : Engine m) (r : Renderer ρ η) (paths : List (List Nat)) (state : ρ)
    (e : Element) :
    (fun effect : Effect ρ η => (⟨effect.element, effect.renderer⟩ : Session ρ)) <$>
        Effect.ofPass <$> engine.offered r paths (e, .start state) =
      Session.replay r engine.settings.markerAttribute ⟨e, state⟩ <$>
        engine.offer r paths (e, .start state) := by
  rw [offered, Functor.map_map, Functor.map_map]
  congr 1
  funext hs
  exact Session.ofPage_replay r engine.settings.markerAttribute (e, .start state) hs

/-- To initialise one element is to offer it. -/
theorem replay_offer_self (engine : Engine m) (r : Renderer ρ η) (state : ρ) (e : Element) :
    Session.replay r engine.settings.markerAttribute ⟨e, state⟩ <$>
        engine.offer r [[]] (e, .start state) =
      (fun attempt => (⟨e.wear attempt.attributes, attempt.renderer⟩ : Session ρ)) <$>
        engine.initialise r state e := by
  rw [initialise_eq_attempt, Functor.map_map]
  simp only [offer, Pass.start, Element.at?, bind_pure_comp, map_pure, Functor.map_map]
  rfl

/-- An action does to its element and to the renderer what its hand-overs do, and nothing else. -/
theorem act_eq_replay (engine : Engine m) (r : Renderer ρ η) (action : Action) (state : ρ)
    (e : Element) :
    (fun effect : Effect ρ η => (⟨effect.element, effect.renderer⟩ : Session ρ)) <$>
        engine.act r action state e =
      Session.replay r engine.settings.markerAttribute ⟨e, state⟩ <$>
        engine.entries r action state e := by
  have hwear : Element.wear e.attributes e = e := by cases e; rfl
  -- One case for each action: what it aims at is offered, and what it only asks has no hand-overs.
  cases action with
  | initialise =>
    simp only [entries, enquire, aims, pure_bind]
    rw [replay_offer_self, act, Functor.map_map]
    rfl
  | initialiseAll =>
    simp only [entries, enquire, aims, pure_bind]
    rw [← ofPass_offered, act, initialiseAll, initialiseMatching, sweep_eq_offered]
  | initialiseMatching s =>
    simp only [entries, enquire, aims, pure_bind]
    rw [← ofPass_offered, act, initialiseMatching, sweep_eq_offered]
  | initialiseEach paths =>
    simp only [entries, enquire, aims, pure_bind]
    rw [← ofPass_offered, act, initialiseEach_eq_offered]
  | raise event =>
    simp only [entries, enquire, aims, pure_bind]
    rw [← ofPass_offered, act, raise]
    -- An event of another name aims at nothing.
    split
    · rw [initialiseAll, initialiseMatching, sweep_eq_offered]
    · simp [offered, offer, Renderer.replay]
  | dispatch invocation =>
    rw [act, dispatch]
    -- A call without a method is turned down before anything is offered.
    cases hmethod : invocation.method with
    | error failure =>
      simp only [entries, enquire, aims, hmethod, pure_bind, offer, map_pure]
      exact congrArg (fun x => pure (⟨x, state⟩ : Session ρ)) hwear
    | ok method =>
      cases method with
      | initialise =>
        simp only [entries, enquire, aims, hmethod, pure_bind]
        rw [replay_offer_self, bind_pure_comp, Functor.map_map, Functor.map_map]
        rfl
      | _ =>
        -- A question is asked, and then nothing is offered.
        simp only [entries, enquire, aims, hmethod, offer, bind_pure_comp, Functor.map_map]
        congr 1
        funext answer
        exact congrArg (fun x => (⟨x, state⟩ : Session ρ)) hwear

end Engine

/-! ## Runs -/

namespace Session

variable {m : Type → Type} [Monad m]

def entries (engine : Engine m) (r : Renderer ρ η) (step : Step) (s : Session ρ) :
    m (List HandOver) :=
  match s.document.at? step.path with
  | none => pure []
  | some e => List.map (HandOver.below step.path) <$> engine.entries r step.action s.renderer e

def journal (engine : Engine m) (r : Renderer ρ η) :
    List Step → Session ρ → m (List HandOver)
  | [], _ => pure []
  | step :: steps, s => do
    let hs ← entries engine r step s
    let later ← journal engine r steps (s.replay r engine.settings.markerAttribute hs)
    pure (hs ++ later)

variable [LawfulMonad m]

/-- A step does to the session what its hand-overs do, seen from the root of the document. -/
theorem perform_eq_replay (engine : Engine m) (r : Renderer ρ η) (step : Step) (s : Session ρ) :
    Prod.snd <$> perform engine r step s =
      s.replay r engine.settings.markerAttribute <$> entries engine r step s := by
  cases he : s.document.at? step.path with
  | none => simp [perform, entries, he, replay]
  | some e =>
    -- What the action does to its element is put where the element stands.
    have hact := congrArg (fun f => (fun t : Session ρ => (⟨s.document.update (fun _ => t.document)
      step.path, t.renderer⟩ : Session ρ)) <$> f) (engine.act_eq_replay r step.action s.renderer e)
    simp only [Functor.map_map] at hact
    simp only [perform, entries, he, bind_pure_comp, Functor.map_map]
    rw [hact]
    congr 1
    funext hs
    exact (replay_below r engine.settings.markerAttribute he s.renderer hs).symm

/-- A run does to the session what the hand-overs of its journal do. -/
theorem run_eq_replay (engine : Engine m) (r : Renderer ρ η) (steps : List Step) (s : Session ρ) :
    Prod.snd <$> run engine r steps s =
      s.replay r engine.settings.markerAttribute <$> journal engine r steps s := by
  -- Each step is taken in the session that the journal so far has led to.
  induction steps generalizing s with
  | nil => simp [run, journal, replay]
  | cons step steps ih =>
    calc Prod.snd <$> run engine r (step :: steps) s
        = (Prod.snd <$> perform engine r step s) >>= fun t => Prod.snd <$> run engine r steps t := by
          simp only [run, bind_map_left, map_bind, bind_pure_comp, Functor.map_map]
      _ = (s.replay r engine.settings.markerAttribute <$> entries engine r step s) >>= fun t =>
            t.replay r engine.settings.markerAttribute <$> journal engine r steps t := by
          rw [perform_eq_replay]
          simp only [ih]
      _ = s.replay r engine.settings.markerAttribute <$> journal engine r (step :: steps) s := by
          simp only [journal, bind_map_left, map_bind, bind_pure_comp, Functor.map_map,
            replay_append]

end Session

end TableMarkup
