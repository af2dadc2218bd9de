import TableMarkup.Proofs.Markup.Places
import TableMarkup.Rendering.Initialisation

/-!
# Hand-overs

Whatever initialises elements of a document hands them to the renderer one after the other. A
hand-over is known by the path of the element and the configuration built for it, and the page after
it follows from these alone. So a pass is the list of its hand-overs: the host is asked for
configurations, and all else is `Renderer.replay`.

* `Engine.offer` hands over the elements at given paths, as long as none is refused, and gives the
  list of hand-overs; `Engine.offered` is the page afterwards.
* `offered_append`, `offered_below`: paths may be offered in two parts, and below another element.
* `sweep_eq_offered`: passing over a tree is to offer the paths of the elements that are picked, as
  they stood before the pass; `visitEach_eq_offered` says the same of elements that are given by their
  paths, in any order.
-/

namespace TableMarkup

variable {ρ η : Type}

/-! ## One hand-over -/

/-- One try of a renderer at an element, with the marker taken off if the element is accepted. -/
def Renderer.attempt (r : Renderer ρ η) (marker : String) (state : ρ) (e : Element)
    (config : TableConfig) : Attempt Refusal ρ η :=
  let attempt := r.initialise state e config
  match attempt.outcome with
  | .ok _ => { attempt with attributes := attempt.attributes.erase marker }
  | .error _ => attempt

/-- An element that is handed over: its path, and the configuration that goes with it. -/
structure HandOver where
  path : List Nat
  config : TableConfig

def HandOver.below (path : List Nat) (h : HandOver) : HandOver :=
  { h with path := path ++ h.path }

namespace Renderer

def handOver (r : Renderer ρ η) (marker : String) (page : Element × Pass ρ η) (h : HandOver) :
    Element × Pass ρ η :=
  match page.1.at? h.path with
  | none => page
  | some e =>
    let attempt := r.attempt marker page.2.renderer e h.config
    (page.1.update (Element.wear attempt.attributes) h.path, page.2.after attempt)

def replay (r : Renderer ρ η) (marker : String) (page : Element × Pass ρ η)
    (hs : List HandOver) : Element × Pass ρ η :=
  hs.foldl (r.handOver marker) page

theorem handOver_of_at? (r : Renderer ρ η) (marker : String) (page : Element × Pass ρ η)
    (h : HandOver) {e : Element} (he : page.1.at? h.path = some e) :
    r.handOver marker page h =
      (page.1.update
          (Element.wear (r.attempt marker page.2.renderer e h.config).attributes) h.path,
        page.2.after (r.attempt marker page.2.renderer e h.config)) := by
  simp [handOver, he]

theorem replay_append (r : Renderer ρ η) (marker : String) (page : Element × Pass ρ η)
    (hs ks : List HandOver) :
    r.replay marker page (hs ++ ks) = r.replay marker (r.replay marker page hs) ks :=
  List.foldl_append

/-- A hand-over inside an element changes the page around it in that element only. -/
theorem handOver_below (r : Renderer ρ η) (marker : String) {document e : Element}
    {path : List Nat} (he : document.at? path = some e) (pass : Pass ρ η) (h : HandOver) :
    r.handOver marker (document, pass) (h.below path) =
      (document.update (fun _ => (r.handOver marker (e, pass) h).1) path,
        (r.handOver marker (e, pass) h).2) := by
  have hat : document.at? (path ++ h.path) = e.at? h.path := by
    rw [Element.at?_append, he, Option.bind_some]
  cases hx : e.at? h.path with
  | none =>
    rw [hx] at hat
    -- The path leads nowhere, so nothing changes on either side.
    simp [handOver, HandOver.below, hat, hx, Element.update_of_at? he]
  | some x =>
    rw [hx] at hat
    simp only [handOver, HandOver.below, hat, hx]
    rw [Element.update_append]
    exact Prod.ext (Element.update_congr he rfl) rfl

/-- Hand-overs inside an element change the page around it in that element only. -/
theorem replay_below (r : Renderer ρ η) (marker : String) {document e : Element}
    {path : List Nat} (he : document.at? path = some e) (pass : Pass ρ η) (hs : List HandOver) :
    r.replay marker (document, pass) (hs.map (HandOver.below path)) =
      (document.update (fun _ => (r.replay marker (e, pass) hs).1) path,
        (r.replay marker (e, pass) hs).2) := by
  -- The element grows different with each hand-over, and the document with it.
  induction hs generalizing document e pass with
  | nil => simp [replay, Element.update_of_at? he]
  | cons h hs ih =>
    have hstep := r.handOver_below marker he pass h
    -- At the path there is now the element as the first hand-over left it.
    have hat : (document.update (fun _ => (r.handOver marker (e, pass) h).1) path).at? path =
        some (r.handOver marker (e, pass) h).1 := by
      rw [Element.at?_update_self, he, Option.map_some]
    have hrest := ih hat (r.handOver marker (e, pass) h).2
    simp only [replay, List.map_cons, List.foldl_cons, hstep] at hrest ⊢
    rw [hrest, Element.update_update]
    rfl

end Renderer

/-! ## Offering paths -/

namespace Engine

variable {m : Type → Type} [Monad m]

/-- Hands over the elements at the given paths, one after the other, until one is refused. -/
def offer (engine : Engine m) (r : Renderer ρ η) :
    List (List Nat) → Element × Pass ρ η → m (List HandOver)
  | [], _ => pure []
  | path :: paths, page =>
    match page.2.refusal, page.1.at? path with
    | none, some e => do
      let config ← engine.buildConfig e
      let later ←
        engine.offer r paths (r.handOver engine.settings.markerAttribute page ⟨path, config⟩)
      pure (⟨path, config⟩ :: later)
    | _, _ => engine.offer r paths page

/-- The page after the elements at the given paths have been offered. -/
def offered (engine : Engine m) (r : Renderer ρ η) (paths : List (List Nat))
    (page : Element × Pass ρ η) : m (Element × Pass ρ η) :=
  r.replay engine.settings.markerAttribute page <$> engine.offer r paths page

variable [LawfulMonad m]

/-- To initialise an element is to build its configuration and to try. -/
theorem initialise_eq_attempt (engine : Engine m) (r : Renderer ρ η) (state : ρ) (e : Element) :
    engine.initialise r state e =
      r.attempt engine.settings.markerAttribute state e <$> engine.buildConfig e := by
  rw [initialise, ← bind_pure_comp]
  congr 1
  funext config
  -- The marker is taken off exactly if the outcome is a handle, on both sides.
  cases h : (r.initialise state e config).outcome <;> simp [Renderer.attempt, h]

/-- Paths are offered in two parts: the second part meets the page that the first one has left. -/
theorem offer_append (engine : Engine m) (r : Renderer ρ η) (ps qs : List (List Nat))
    (page : Element × Pass ρ η) :
    engine.offer r (ps ++ qs) page = (do
      let hs ← engine.offer r ps page
      let ks ← engine.offer r qs (r.replay engine.settings.markerAttribute page hs)
      pure (hs ++ ks)) := by
  induction ps generalizing page with
  | nil => simp [offer, Renderer.replay]
  | cons p ps ih =>
    rw [List.cons_append, offer, offer]
    -- Either the path is offered, or it is passed over after a refusal or because nothing is there.
    split
    · simp only [ih, bind_assoc, pure_bind]
      rfl
    · exact ih page

/-- The page after two parts of paths is the page after the second part, from the one after the
first. -/
theorem offered_append (engine : Engine m) (r : Renderer ρ η) (ps qs : List (List Nat))
    (page : Element × Pass ρ η) :
    engine.offered r (ps ++ qs) page = engine.offered r ps page >>= engine.offered r qs := by
  simp only [offered, offer_append, ← bind_pure_comp, bind_assoc, pure_bind,
    Renderer.replay_append]

/-- Paths below an element are offered as if the element were the whole document. -/
theorem offer_below (engine : Engine m) (r : Renderer ρ η) {document e : Element}
    {path : List Nat} (he : document.at? path = some e) (pass : Pass ρ η)
    (ps : List (List Nat)) :
    engine.offer r (ps.map (path ++ ·)) (document, pass) =
      List.map (HandOver.below path) <$> engine.offer r ps (e, pass) := by
  -- Each path is offered in the element as it is by then, and in the document around it.
  induction ps generalizing document e pass with
  | nil => simp [offer]
  | cons p ps ih =>
    have hat : document.at? (path ++ p) = e.at? p := by
      rw [Element.at?_append, he, Option.bind_some]
    simp only [List.map_cons, offer, hat]
    cases hr : pass.refusal with
    -- After a refusal nothing is handed over, on neither side.
    | some refusal => exact ih he pass
    | none =>
      cases hx : e.at? p with
      | none => exact ih he pass
      | some x =>
        simp only [map_bind, map_pure, List.map_cons]
        congr 1
        funext config
        have hstep := r.handOver_below engine.settings.markerAttribute he pass ⟨p, config⟩
        rw [HandOver.below] at hstep
        rw [hstep, ih (by rw [Element.at?_update_self, he, Option.map_some])]
        simp only [bind_map_left]
        rfl

/-- What is offered below an element changes the page around it in that element only. -/
theorem offered_below (engine : Engine m) (r : Renderer ρ η) {document e : Element}
    {path : List Nat} (he : document.at? path = some e) (pass : Pass ρ η)
    (ps : List (List Nat)) :
    engine.offered r (ps.map (path ++ ·)) (document, pass) =
      (fun page => (document.update (fun _ => page.1) path, page.2)) <$>
        engine.offered r ps (e, pass) := by
  simp only [offered, offer_below engine r he, Functor.map_map, r.replay_below _ he]

/-! ## Passes over a tree -/

/-- An element visited in the course of a pass is offered, if it is chosen. -/
theorem visit_eq_offered (engine : Engine m) (r : Renderer ρ η) (chosen : Bool) (e : Element)
    (pass : Pass ρ η) :
    (fun seen => (e.wear seen.1, seen.2)) <$> engine.visit r chosen e pass =
      engine.offered r (if chosen then [[]] else []) (e, pass) := by
  have hwear : Element.wear e.attributes e = e := e.wear_attributes
  rw [visit, offered]
  -- Nothing happens to an element that is not chosen, or after a refusal.
  cases chosen with
  | false => simp [offer, Renderer.replay, hwear]
  | true =>
    cases hr : pass.refusal with
    | some refusal => simp [offer, Renderer.replay, hwear, hr]
    | none =>
      simp only [Bool.true_and, Option.isNone_none, ↓reduceIte, offer, hr, Element.at?,
        initialise_eq_attempt, ← bind_pure_comp, bind_assoc, pure_bind, Renderer.replay,
        List.foldl_cons, List.foldl_nil]
      rfl

/-- What is offered in one of several elements in a row changes that element only. -/
theorem offered_child (engine : Engine m) (r : Renderer ρ η) (tag : String) (a : Attributes)
    (before after : List Element) (e : Element) (pass : Pass ρ η) (ps : List (List Nat)) :
    engine.offered r (ps.map (before.length :: ·)) (⟨tag, a, before ++ e :: after⟩, pass) =
      (fun page => (⟨tag, a, before ++ page.1 :: after⟩, page.2)) <$>
        engine.offered r ps (e, pass) := by
  have he : (⟨tag, a, before ++ e :: after⟩ : Element).at? [before.length] = some e := by
    simp [Element.at?]
  have hupdate (x : Element) :
      (⟨tag, a, before ++ e :: after⟩ : Element).update (fun _ => x) [before.length] =
        ⟨tag, a, before ++ x :: after⟩ := by
    rw [Element.update, Element.mk.injEq]
    refine ⟨rfl, rfl, ?_⟩
    show (before ++ e :: after).modify before.length (fun _ => x) = before ++ x :: after
    rw [List.modify_eq_take_cons_drop (by simp)]
    simp
  have hbelow := engine.offered_below r he pass ps
  simp only [List.cons_append, List.nil_append, hupdate] at hbelow
  exact hbelow

/-- To pass over elements in a row is to offer the paths of those picked, if this is so for each of
them. -/
theorem sweepAll_eq_offered (engine : Engine m) (r : Renderer ρ η) (s : Selector) (tag : String)
    (a : Attributes) {es : List Element}
    (h : ∀ e ∈ es, ∀ pass, engine.sweep r s e pass = engine.offered r (s.paths e) (e, pass))
    (before : List Element) (pass : Pass ρ η) :
    engine.offered r (s.pathsFrom before.length es) (⟨tag, a, before ++ es⟩, pass) =
      (fun swept => (⟨tag, a, before ++ swept.1⟩, swept.2)) <$> engine.sweepAll r s es pass := by
  -- The elements already swept are kept in front, so that the positions of the others stay the
  -- same.
  induction es generalizing before pass with
  | nil => simp [Selector.pathsFrom, Element.locatedFrom, offered, offer, sweepAll, Renderer.replay]
  | cons e es ih =>
    have ihes := ih fun x hx => h x (List.mem_cons_of_mem _ hx)
    rw [Selector.pathsFrom_cons, offered_append, offered_child, ← h e List.mem_cons_self, sweepAll,
      bind_map_left, map_bind]
    congr 1
    funext swept
    -- The child that was swept joins those before, and the rest begins one position later.
    have hrest := ihes (before ++ [swept.1]) swept.2
    simp only [List.length_append, List.length_singleton, List.append_assoc,
      List.singleton_append] at hrest
    rw [hrest]
    simp only [bind_pure_comp, Functor.map_map]

/-- To pass over a tree is to offer the paths of the elements that are picked, as they stood before
the pass. -/
theorem sweep_eq_offered (engine : Engine m) (r : Renderer ρ η) (s : Selector) (e : Element)
    (pass : Pass ρ η) :
    engine.sweep r s e pass = engine.offered r (s.paths e) (e, pass) := by
  induction e using Element.induct generalizing pass with
  | h tag a children ih =>
    -- The element itself comes first, and what it does to its attributes its children do not see.
    rw [Selector.paths_mk, offered_append, ← visit_eq_offered, sweep, bind_map_left]
    congr 1
    funext seen
    have hall := engine.sweepAll_eq_offered r s tag seen.1 ih [] seen.2
    simp only [List.length_nil, List.nil_append] at hall
    rw [show Element.wear seen.1 ⟨tag, a, children⟩ = ⟨tag, seen.1, children⟩ from rfl, hall]
    simp only [bind_pure_comp]

/-! ## Passes over given elements -/

/-- To visit elements that are given by their paths is to offer these paths, in the order given. -/
theorem visitEach_eq_offered (engine : Engine m) (r : Renderer ρ η) (paths : List (List Nat))
    (root : Element) (pass : Pass ρ η) :
    engine.visitEach r paths root pass = engine.offered r paths (root, pass) := by
  -- Any elements in any order: the page that the rest of the paths meet is whatever the first visit
  -- has left.
  induction paths generalizing root pass with
  | nil => simp [visitEach, offered, offer, Renderer.replay]
  | cons path paths ih =>
    have hcons : path :: paths = [[]].map (path ++ ·) ++ paths := by simp
    cases he : root.at? path with
    | none =>
      -- Nothing is at the path, so it is offered to no effect.
      have hnothing : engine.offered r [path] (root, pass) = pure (root, pass) := by
        simp [offered, offer, he, Renderer.replay]
      rw [visitEach, he, ih, ← List.singleton_append, offered_append, hnothing, pure_bind]
    | some e =>
      -- The element is visited as if it were the whole document, and put back where it stands.
      have hupdate (a : Attributes) :
          root.update (fun _ => e.wear a) path = root.update (Element.wear a) path :=
        Element.update_congr he rfl
      have hvisit := engine.visit_eq_offered r true e pass
      rw [if_pos rfl] at hvisit
      rw [visitEach, he, hcons, offered_append, engine.offered_below r he, ← hvisit,
        Functor.map_map, bind_map_left]
      refine bind_congr fun seen => ?_
      dsimp only
      rw [ih, hupdate]
      rfl

/-- To initialise given elements is to offer their paths, in the order given. -/
theorem initialiseEach_eq_offered (engine : Engine m) (r : Renderer ρ η) (paths : List (List Nat))
    (state : ρ) (root : Element) :
    engine.initialiseEach r paths state root = engine.offered r paths (root, .start state) :=
  engine.visitEach_eq_offered r paths root (.start state)

end Engine

end TableMarkup
