import TableMarkup.Proofs.Rendering.HandOver

/-!
# The course of a pass

A pass hands chosen elements over in order and ends at the first refusal. `Course` is the record of
one: an element is accepted and the pass goes on in the state that the renderer is in then, or it is
refused and the pass is over. The record can be of no other shape, so whatever holds of all courses
holds of every pass, whatever the host answers.

* `Engine.course` runs a pass over a list of located elements and asks the host for one configuration
  after the other.
* `Course.handed`, `Course.handles`, `Course.refusal`, `Course.final`, `Course.acceptedPaths` and
  `Course.worn` are what comes of it; `handed_prefix` and `length_handed` say how far it gets.
* `initialiseMatching_eq_course`: initialising what a selector picks takes this course over the
  elements that are picked before the pass, and changes the tree in their attributes only.
-/

namespace TableMarkup

variable {ρ η : Type}

/-- The course of a pass over located elements, from a state of the renderer on. -/
inductive Course (r : Renderer ρ η) (marker : String) : ρ → List (List Nat × Element) → Type where
  | finished {state : ρ} : Course r marker state []
  | refused {state : ρ} (path : List Nat) (e : Element) {rest : List (List Nat × Element)}
      (config : TableConfig) (refusal : Refusal)
      (h : (r.attempt marker state e config).outcome = .error refusal) :
      Course r marker state ((path, e) :: rest)
  | accepted {state : ρ} (path : List Nat) (e : Element) {rest : List (List Nat × Element)}
      (config : TableConfig) (handle : η)
      (h : (r.attempt marker state e config).outcome = .ok handle)
      (later : Course r marker (r.attempt marker state e config).renderer rest) :
      Course r marker state ((path, e) :: rest)

namespace Course

variable {r : Renderer ρ η} {marker : String} {state : ρ} {marked : List (List Nat × Element)}

def handOvers {state : ρ} {marked : List (List Nat × Element)} :
    Course r marker state marked → List HandOver
  | .finished => []
  | .refused path _ config _ _ => [⟨path, config⟩]
  | .accepted path _ config _ _ later => ⟨path, config⟩ :: later.handOvers

def handed {state : ρ} {marked : List (List Nat × Element)} :
    Course r marker state marked → List (List Nat × Element)
  | .finished => []
  | .refused path e _ _ _ => [(path, e)]
  | .accepted path e _ _ _ later => (path, e) :: later.handed

def handles {state : ρ} {marked : List (List Nat × Element)} :
    Course r marker state marked → List η
  | .finished => []
  | .refused _ _ _ _ _ => []
  | .accepted _ _ _ handle _ later => handle :: later.handles

def refusal {state : ρ} {marked : List (List Nat × Element)} :
    Course r marker state marked → Option Refusal
  | .finished => none
  | .refused _ _ _ refusal _ => some refusal
  | .accepted _ _ _ _ _ later => later.refusal

def final {state : ρ} {marked : List (List Nat × Element)} :
    Course r marker state marked → ρ
  | .finished => state
  | .refused _ e config _ _ => (r.attempt marker state e config).renderer
  | .accepted _ _ _ _ _ later => later.final

/-- The paths of the elements that were accepted. -/
def acceptedPaths {state : ρ} {marked : List (List Nat × Element)} :
    Course r marker state marked → List (List Nat)
  | .finished => []
  | .refused _ _ _ _ _ => []
  | .accepted path _ _ _ _ later => path :: later.acceptedPaths

/-- The attributes with which the elements that were handed over were left, by their paths. -/
def worn {state : ρ} {marked : List (List Nat × Element)} :
    Course r marker state marked → List (List Nat × Attributes)
  | .finished => []
  | .refused path e config _ _ =>
    [(path, (r.attempt marker state e config).attributes)]
  | .accepted path e config _ _ later =>
    (path, (r.attempt marker state e config).attributes) :: later.worn

def pass (c : Course r marker state marked) : Pass ρ η :=
  { renderer := c.final, handles := c.handles, refusal := c.refusal }

/-- The attributes of an element after the pass. -/
def attributesOf (c : Course r marker state marked) (path : List Nat) (e : Element) : Attributes :=
  (c.worn.lookup path).getD e.attributes

/-! ## How far a pass gets -/

/-- The elements handed over are the first ones of those that the pass goes over. -/
theorem handed_prefix (c : Course r marker state marked) : c.handed <+: marked := by
  induction c with
  | finished => exact List.nil_prefix
  | refused path e config cause h => simp [handed]
  | accepted path e config handle h later ih => simpa [handed] using ih

/-- Every element that was handed over was left with attributes, whether it was accepted or not. -/
theorem paths_worn (c : Course r marker state marked) :
    c.worn.map Prod.fst = c.handed.map Prod.fst := by
  induction c with
  | finished => rfl
  | refused path e config cause h => rfl
  | accepted path e config handle h later ih => simp [worn, handed, ih]

/-- Every element handed over was accepted, but for the last one of a pass that ended. -/
theorem length_handed (c : Course r marker state marked) :
    c.handed.length = c.handles.length + if c.refusal.isSome then 1 else 0 := by
  induction c with
  | finished => rfl
  | refused path e config cause h => rfl
  | accepted path e config handle h later ih =>
    rw [handed, handles, refusal, List.length_cons, List.length_cons, ih, Nat.add_right_comm]

/-- The elements accepted are the first ones handed over, as many as there are handles. -/
theorem acceptedPaths_eq_take (c : Course r marker state marked) :
    c.acceptedPaths = (c.handed.map Prod.fst).take c.handles.length := by
  -- At a refusal one element has been handed over and no handle given, so none is taken.
  induction c with
  | finished => rfl
  | refused path e config cause h => rfl
  | accepted path e config handle h later ih =>
    rw [acceptedPaths, handed, handles, List.map_cons, List.length_cons, List.take_succ_cons, ih]

theorem length_acceptedPaths (c : Course r marker state marked) :
    c.acceptedPaths.length = c.handles.length := by
  rw [acceptedPaths_eq_take, List.length_take, List.length_map, c.length_handed]
  -- There are never more handles than hand-overs.
  omega

theorem handed_of_refusal_eq_none (c : Course r marker state marked) (h : c.refusal = none) :
    c.handed = marked := by
  induction c with
  | finished => rfl
  | refused path e config cause hr => simp [refusal] at h
  | accepted path e config handle ha later ih => rw [handed, ih h]

theorem acceptedPaths_of_refusal_eq_none (c : Course r marker state marked) (h : c.refusal = none) :
    c.acceptedPaths = marked.map Prod.fst := by
  have hlength := c.length_handed
  rw [h, Option.isSome_none, if_neg Bool.false_ne_true, Nat.add_zero] at hlength
  rw [acceptedPaths_eq_take, ← hlength, ← List.map_take, List.take_length,
    c.handed_of_refusal_eq_none h]

/-- Where nothing is handed over nothing is worn. -/
theorem lookup_worn_eq_none (c : Course r marker state marked) {path : List Nat}
    (h : path ∉ marked.map Prod.fst) : c.worn.lookup path = none := by
  rw [List.lookup_eq_none_iff]
  intro x hx
  -- What is worn was handed over, and what is handed over was to be.
  have hmem : x.1 ∈ c.handed.map Prod.fst := c.paths_worn ▸ List.mem_map_of_mem hx
  have hpath : x.1 ∈ marked.map Prod.fst := (c.handed_prefix.sublist.map _).subset hmem
  simp only [bne_iff_ne, ne_eq]
  rintro rfl
  exact h hpath

/-- Elements that stand in document order stand at different places. -/
theorem nodup_paths (hpair : marked.Pairwise fun x y => ¬ y.1 <+: x.1) :
    (marked.map Prod.fst).Nodup := by
  rw [List.Nodup, List.pairwise_map]
  refine hpair.imp fun {x y} h heq => h ?_
  show y.1 <+: x.1
  exact heq ▸ List.prefix_refl x.1

/-- An element is handed over once, so what it was left with is found by its path. -/
theorem lookup_worn_of_mem (c : Course r marker state marked) (hnodup : (marked.map Prod.fst).Nodup)
    {path : List Nat} {a : Attributes} (h : (path, a) ∈ c.worn) :
    c.worn.lookup path = some a := by
  -- The paths of the course are among those of the elements, which are all different.
  have hworn : (c.worn.map Prod.fst).Nodup := by
    rw [c.paths_worn]
    exact hnodup.sublist (c.handed_prefix.sublist.map Prod.fst)
  obtain ⟨before, after, hsplit⟩ := List.append_of_mem h
  rw [hsplit, List.map_append, List.nodup_append] at hworn
  refine List.lookup_eq_some_iff.mpr ⟨before, after, hsplit, fun x hx => ?_⟩
  rw [bne_iff_ne]
  exact Ne.symm (hworn.2.2 x.1 (List.mem_map_of_mem hx) path List.mem_cons_self)

/-! ## The page after a pass -/

/-- At every place of the page stands the tag from before, with the attributes from the course if
the course has left any there. -/
theorem label?_wearing_attributesOf (c : Course r marker state marked) (root : Element)
    (p : List Nat) :
    (root.wearing c.attributesOf).label? p =
      (root.label? p).map fun x => (x.1, (c.worn.lookup p).getD x.2) := by
  rw [Element.label?_wearing, Element.label?, Option.map_map]
  rfl

theorem wearing_finished (root : Element) :
    root.wearing (finished : Course r marker state []).attributesOf = root := by
  refine Element.eq_of_label? fun p => ?_
  rw [label?_wearing_attributesOf]
  simp [worn]

/-- One more element at the front of a course: the tree that the rest of it starts from has the
attributes of that element changed already. -/
theorem wearing_attributesOf_cons (a : Attributes) {path : List Nat}
    (later : Course r marker state marked) (hpath : path ∉ marked.map Prod.fst)
    {f : List Nat → Element → Attributes}
    (hf : f = fun p x => (((path, a) :: later.worn).lookup p).getD x.attributes)
    (root : Element) :
    (root.update (Element.wear a) path).wearing later.attributesOf = root.wearing f := by
  refine Element.eq_of_label? fun p => ?_
  rw [label?_wearing_attributesOf, Element.label?_wearing, hf]
  -- At the path of the first element its own attributes are found first; elsewhere they are passed
  -- over.
  by_cases hp : p = path
  · subst hp
    rw [Element.label?_update_self, later.lookup_worn_eq_none hpath, Element.label?]
    simp [Function.comp_def]
  · have hne : (p == path) = false := by simpa using hp
    rw [Element.label?_update_of_ne hp, Element.label?, Option.map_map]
    simp [Function.comp_def, List.lookup_cons, hne]

/-- The hand-overs of a course, one after the other, leave the tree with the attributes that the
elements were left with. Each element stands as it did before the pass when it is handed over,
because it comes before everything in it. -/
theorem replay_handOvers (c : Course r marker state marked) {root : Element}
    (hat : ∀ x ∈ marked, root.at? x.1 = some x.2)
    (hpair : marked.Pairwise fun x y => ¬ y.1 <+: x.1) (handles : List η) :
    r.replay marker (root, ⟨state, handles, none⟩) c.handOvers =
      (root.wearing c.attributesOf, ⟨c.final, handles ++ c.handles, c.refusal⟩) := by
  -- The page changes with each hand-over, and what carries the induction is that the elements still
  -- to come stand on it as they did before the pass.
  induction c generalizing root handles with
  | finished =>
    rw [wearing_finished]
    simp [handOvers, Renderer.replay, final, Course.handles, refusal]
  | @refused state path e rest config cause h =>
    have hroot := hat (path, e) List.mem_cons_self
    have hpath : path ∉ ([] : List (List Nat × Element)).map Prod.fst := by simp
    -- The refused element may be stamped, and that is all that happens to the page.
    have htree := wearing_attributesOf_cons (r.attempt marker state e config).attributes
      (.finished : Course r marker state []) hpath rfl root
    rw [wearing_finished] at htree
    rw [handOvers, Renderer.replay, List.foldl_cons, List.foldl_nil,
      r.handOver_of_at? marker _ ⟨path, config⟩ hroot]
    refine Prod.ext htree ?_
    simp [Pass.after, h, final, Course.handles, refusal]
  | @accepted state path e rest config handle h later ih =>
    have hroot := hat (path, e) List.mem_cons_self
    rw [List.pairwise_cons] at hpair
    have hpath : path ∉ rest.map Prod.fst := by
      rintro hmem
      obtain ⟨y, hy, rfl⟩ := List.mem_map.mp hmem
      exact hpair.1 y hy (List.prefix_refl _)
    -- What is left stands as before: no path of the rest leads through the element just changed.
    have hrest : ∀ x ∈ rest,
        (root.update (Element.wear (r.attempt marker state e config).attributes) path).at? x.1 =
          some x.2 := by
      intro x hx
      rw [Element.at?_update_of_not_prefix (hpair.1 x hx)]
      exact hat x (List.mem_cons_of_mem _ hx)
    have hlater := ih hrest hpair.2 (handles ++ [handle])
    have htree := wearing_attributesOf_cons (r.attempt marker state e config).attributes later
      hpath rfl root
    have hstep := r.handOver_of_at? marker (root, ⟨state, handles, none⟩) ⟨path, config⟩ hroot
    simp only [Pass.after, h] at hstep
    rw [handOvers, Renderer.replay, List.foldl_cons, hstep]
    rw [Renderer.replay] at hlater
    rw [hlater, htree, List.append_assoc]
    rfl

end Course

/-! ## Passes take courses -/

namespace Engine

variable {m : Type → Type} [Monad m]

/-- Hands located elements over, one after the other, and ends at the first refusal. -/
def course (engine : Engine m) (r : Renderer ρ η) (state : ρ) :
    (marked : List (List Nat × Element)) →
      m (Course r engine.settings.markerAttribute state marked)
  | [] => pure .finished
  | (path, e) :: rest => do
    let config ← engine.buildConfig e
    match h : (r.attempt engine.settings.markerAttribute state e config).outcome with
    | .error refusal => pure (.refused path e config refusal h)
    | .ok handle => do
      let later ← engine.course r
        (r.attempt engine.settings.markerAttribute state e config).renderer rest
      pure (.accepted path e config handle h later)

/-- After a refusal nothing more is offered. -/
theorem offer_of_refusal (engine : Engine m) (r : Renderer ρ η) (paths : List (List Nat))
    {page : Element × Pass ρ η} {refusal : Refusal} (h : page.2.refusal = some refusal) :
    engine.offer r paths page = pure [] := by
  -- The page does not change meanwhile, so the refusal is met at every path.
  induction paths with
  | nil => rfl
  | cons path paths ih => simp [offer, h, ih]

variable [LawfulMonad m]

/-- To offer the paths of elements that stand in document order is to take the course over these
elements. -/
theorem offer_eq_course (engine : Engine m) (r : Renderer ρ η) (state : ρ) (handles : List η)
    {root : Element} {marked : List (List Nat × Element)}
    (hat : ∀ x ∈ marked, root.at? x.1 = some x.2)
    (hpair : marked.Pairwise fun x y => ¬ y.1 <+: x.1) :
    engine.offer r (marked.map Prod.fst) (root, ⟨state, handles, none⟩) =
      Course.handOvers <$> engine.course r state marked := by
  -- As in the replay of a course: the page varies, and the elements to come stand on it as before.
  induction marked generalizing root state handles with
  | nil => simp [offer, course, Course.handOvers]
  | cons x rest ih =>
    obtain ⟨path, e⟩ := x
    have hroot := hat (path, e) List.mem_cons_self
    rw [List.pairwise_cons] at hpair
    simp only [List.map_cons, offer, hroot, course, map_bind]
    congr 1
    funext config
    have hstep := r.handOver_of_at? engine.settings.markerAttribute
      (root, ⟨state, handles, none⟩) ⟨path, config⟩ hroot
    rw [hstep]
    split
    · next refusal h =>
      -- The refusal is on the page now, so nothing of the rest is offered.
      have hended : ((⟨state, handles, none⟩ : Pass ρ η).after
          (r.attempt engine.settings.markerAttribute state e config)).refusal = some refusal := by
        simp [Pass.after, h]
      rw [engine.offer_of_refusal r (rest.map Prod.fst) hended]
      simp [Course.handOvers]
    · next handle h =>
      -- No path of the rest leads through the element that has just been changed.
      have hrest : ∀ x ∈ rest, (root.update (Element.wear
          (r.attempt engine.settings.markerAttribute state e config).attributes) path).at? x.1 =
            some x.2 := by
        intro x hx
        rw [Element.at?_update_of_not_prefix (hpair.1 x hx)]
        exact hat x (List.mem_cons_of_mem _ hx)
      simp only [Pass.after, h]
      rw [ih _ _ hrest hpair.2]
      simp only [← bind_pure_comp, bind_assoc, pure_bind, Course.handOvers]

/-- The page after elements in document order have been offered is the page after the course over
them: it is changed in the attributes of the elements handed over, and in nothing else. -/
theorem offered_eq_course (engine : Engine m) (r : Renderer ρ η) (state : ρ) {root : Element}
    {marked : List (List Nat × Element)} (hat : ∀ x ∈ marked, root.at? x.1 = some x.2)
    (hpair : marked.Pairwise fun x y => ¬ y.1 <+: x.1) :
    engine.offered r (marked.map Prod.fst) (root, .start state) =
      (fun c => (root.wearing c.attributesOf, c.pass)) <$> engine.course r state marked := by
  -- The hand-overs are those of the course, and replaying them gives its page.
  rw [offered, Pass.start, engine.offer_eq_course r state [] hat hpair, Functor.map_map]
  congr 1
  funext c
  rw [c.replay_handOvers hat hpair []]
  rfl

/-- To initialise what a selector picks is to take the course over the elements that it picks before
the pass. The tree is changed in the attributes of the elements handed over, and in nothing else. -/
theorem initialiseMatching_eq_course (engine : Engine m) (r : Renderer ρ η) (s : Selector)
    (state : ρ) (root : Element) :
    engine.initialiseMatching r s state root =
      (fun c => (root.wearing c.attributesOf, c.pass)) <$>
        engine.course r state (s.located root) := by
  have hat : ∀ x ∈ s.located root, root.at? x.1 = some x.2 := by
    intro x hx
    exact (Selector.mem_located.mp hx).1
  rw [initialiseMatching, sweep_eq_offered, Selector.paths,
    engine.offered_eq_course r state hat (s.pairwise_located root)]

end Engine

end TableMarkup
