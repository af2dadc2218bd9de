import Mathlib.Data.List.Nodup
import TableMarkup.Proofs.Rendering.DiscoveryPass
import TableMarkup.Rendering.Session

/-!
# Rounds of discovery

A page looks for marked tables when it is ready, and whenever an event asks for it on one of its
elements. Each such round has a renderer of its own, which may refuse what the others accept, and all
of them keep one record. A refusal ends a round and leaves what was done before it.

The crux is that marks only go away. After a round those elements are marked that were marked before
it and have not been accepted: a stamp marks nothing, and what is refused keeps its marker.

* `Course.mem_paths_wearing_iff`: the marks that are left after a course over marked elements.
* `Session.trace`: steps one after the other, each with its own renderer; `run_eq_trace` says that a
  run ends where its trace ends.
* `Round`, `Round.Entry`: a round, and what came of it; `Round.perform_eq_course` says that a round
  takes a course over the elements that are marked before it.
* `Round.Entry.Exact`: what one round does; `Round.entry_exact` says so of every round.
-/

namespace TableMarkup

/-! ## Marks after a course -/

variable {ρ η : Type}

namespace Course

variable {r : Renderer ρ Nat} {settings : Settings} {state : ρ}
  {marked : List (List Nat × Element)} {record : ρ → Recording} {root : Element}

theorem acceptedPaths_prefix (c : Course r settings.markerAttribute state marked) :
    c.acceptedPaths <+: marked.map Prod.fst := by
  rw [acceptedPaths_eq_take]
  exact (List.take_prefix _ _).trans (c.handed_prefix.map Prod.fst)

/-- A course makes as many tables as it accepts elements. -/
theorem created_course (hr : r.Keeps record) (c : Course r settings.markerAttribute state marked) :
    (record c.final).created = (record state).created + c.acceptedPaths.length := by
  induction c with
  | finished => rfl
  | refused path e config cause h =>
    -- A refusal records nothing.
    rw [final, (hr.attempt_of_error h).2]
    rfl
  | accepted path e config handle h later ih =>
    obtain ⟨-, -, -, hrecord⟩ := hr.attempt_of_ok h
    rw [final, acceptedPaths, List.length_cons, ih, hrecord, Recording.created_record]
    omega

/-- After a course over marked elements those are marked that were marked before it and have not been
accepted. -/
theorem mem_paths_wearing_iff (hr : r.Keeps record)
    (c : Course r settings.markerAttribute state marked)
    (hpair : marked.Pairwise fun x y => ¬ y.1 <+: x.1)
    (hmarked : ∀ x ∈ marked, x ∈ settings.selector.located root) (p : List Nat) :
    p ∈ settings.selector.paths (root.wearing c.attributesOf) ↔
      p ∈ settings.selector.paths root ∧ p ∉ c.acceptedPaths := by
  have hexact := c.exact hr (nodup_paths hpair) fun x hx =>
    Settings.text?_of_mem_located (hmarked x hx)
  have hnodup : (c.handed.map Prod.fst).Nodup :=
    (nodup_paths hpair).sublist (c.handed_prefix.sublist.map Prod.fst)
  rw [acceptedPaths_eq_take, List.mem_take_iff_getElem]
  -- Three kinds of places: not handed over, accepted, and refused.
  by_cases hp : p ∈ c.handed.map Prod.fst
  case neg =>
    -- The element was not handed over, so it stands where it stood.
    rw [Selector.mem_paths_congr (hexact.others p hp)]
    refine (and_iff_left ?_).symm
    rintro ⟨i, hi, rfl⟩
    exact hp (List.getElem_mem _)
  case pos =>
    obtain ⟨i, hi, rfl⟩ := List.getElem_of_mem hp
    rw [List.length_map] at hi
    rcases hx : c.handed[i] with ⟨path, e⟩
    have hat : c.handed[i]? = some (path, e) := by rw [List.getElem?_eq_getElem hi, hx]
    have hpath : (c.handed.map Prod.fst)[i] = path := by rw [List.getElem_map, hx]
    obtain ⟨hroot, hpicks⟩ := Selector.mem_located.mp
      (hmarked (path, e) (c.handed_prefix.subset (List.mem_of_getElem? hat)))
    by_cases hlt : i < c.handles.length
    · -- It was accepted and has lost its marker.
      have hlabel := (hexact.accepted i path e hlt hat).1
      rw [hpath, Selector.mem_paths_of_label? hlabel, Settings.picks_selector,
        Attributes.text?_erase_self]
      constructor
      · rintro ⟨-, hnone⟩
        contradiction
      · rintro ⟨-, hnot⟩
        exact absurd ⟨i, by rw [List.length_map]; omega, hpath⟩ hnot
    · -- It was refused: the marker is there, and it is none of those before it.
      have hlength := c.length_handed
      -- Only one hand-over has no handle, and it is the last.
      have hlast : i = c.handles.length := by
        split at hlength <;> omega
      obtain ⟨a, hlabel, -, htext, -⟩ := hexact.refused path e (hlast ▸ hat)
      rw [hpath, Selector.mem_paths_of_label? hlabel, Settings.picks_selector]
      refine iff_of_true ⟨(Settings.picks_selector.mp hpicks).1, htext⟩
        ⟨Selector.mem_paths.mpr ⟨e, hroot, hpicks⟩, ?_⟩
      rintro ⟨k, hk, hsame⟩
      rw [← hpath, hnodup.getElem_inj_iff] at hsame
      omega

end Course

/-! ## Traces -/

/-- A step that has been taken. -/
structure Turn (ρ η : Type) where
  before : Session ρ
  report : Option (Except Failure (Report η))
  after : Session ρ

namespace Session

variable {m : Type → Type} [Monad m]

/-- Takes steps one after the other, each with its own renderer. -/
def trace (engine : Engine m) :
    List (Renderer ρ η × Step) → Session ρ → m (List (Turn ρ η))
  | [], _ => pure []
  | (r, step) :: steps, s => do
    let (report, after) ← perform engine r step s
    let later ← trace engine steps after
    pure (⟨s, report, after⟩ :: later)

/-- Where all steps have the same renderer, the trace tells the reports of the run and the session
in which it ends. -/
theorem run_eq_trace [LawfulMonad m] (engine : Engine m) (r : Renderer ρ η) (steps : List Step)
    (s : Session ρ) :
    run engine r steps s =
      (fun turns => (turns.map Turn.report, (turns.getLast?.map Turn.after).getD s)) <$>
        trace engine (steps.map (r, ·)) s := by
  induction steps generalizing s with
  | nil => simp [run, trace]
  | cons step steps ih =>
    simp only [run, List.map_cons, trace, map_bind, map_pure, ih, bind_map_left]
    congr 1
    funext ⟨report, after⟩
    congr 1
    funext turns
    -- The run ends where its last turn ends, and that is this one if there is no later one.
    rw [List.getLast?_cons]
    cases turns.getLast? <;> rfl

end Session

/-! ## One round -/

/-- What a page is told. -/
inductive Signal where
  | ready
  | event (name : String)

namespace Signal

def action : Signal → Action
  | .ready => .initialiseAll
  | .event name => .raise name

/-- Whether marked tables are looked for then. -/
def discovers : Signal → Bool
  | .ready => true
  | .event name => name = Engine.initialiseEvent

end Signal

/-- A signal at the element that the path leads to. -/
structure Round (ρ η : Type) where
  renderer : Renderer ρ η
  path : List Nat
  signal : Signal

namespace Round

def step (round : Round ρ η) : Step :=
  ⟨round.path, round.signal.action⟩

/-- The marked elements that are looked through, in document order. -/
def marked (round : Round ρ η) (settings : Settings) (document : Element) :
    List (List Nat × Element) :=
  if round.signal.discovers then settings.selector.locatedBelow document round.path else []

/-- What came of a round. -/
structure Entry (ρ η : Type) extends Turn ρ η where
  round : Round ρ η
  /-- The paths of the elements that the renderer accepted. -/
  accepted : List (List Nat)

/-- What comes of a round that takes the given course. A path that leads nowhere is not reported
about. -/
def entry (round : Round ρ η) (s : Session ρ) {marker : String}
    {marked : List (List Nat × Element)} (c : Course round.renderer marker s.renderer marked) :
    Entry ρ η where
  before := s
  report := (s.document.at? round.path).map fun _ =>
    (c.pass.outcome.mapError .refused).map .handles
  after := ⟨s.document.wearing c.attributesOf, c.final⟩
  round
  accepted := c.acceptedPaths

/-- Nothing came of the round, and its report says so. -/
structure Entry.Idle (x : Entry ρ η) : Prop where
  accepted : x.accepted = []
  after : x.after = x.before
  report : x.report = (x.before.document.at? x.round.path).map fun _ => .ok (.handles [])

/-- Where nothing is marked nothing comes of a round. -/
theorem idle_entry (round : Round ρ η) (s : Session ρ) {marker : String}
    {marked : List (List Nat × Element)} (hnone : marked = [])
    (c : Course round.renderer marker s.renderer marked) : (round.entry s c).Idle := by
  subst hnone
  cases c
  constructor
  case accepted => rfl
  case after =>
    rw [entry, Course.wearing_finished]
    rfl
  case report => rfl

/-- An element is looked at in a round if the signal asks for tables and the element is picked below
the target. -/
theorem mem_marked {round : Round ρ η} {settings : Settings} {document e : Element}
    {p : List Nat} :
    (p, e) ∈ round.marked settings document ↔
      round.signal.discovers ∧ (p, e) ∈ settings.selector.located document ∧ round.path <+: p := by
  rw [marked]
  split
  · next h => simp [h, Selector.mem_locatedBelow]
  · next h => simp [h]

/-- No element that is looked through stands in front of one that it lies in. -/
theorem pairwise_marked (round : Round ρ η) (settings : Settings) (document : Element) :
    (round.marked settings document).Pairwise fun x y => ¬ y.1 <+: x.1 := by
  rw [marked]
  split
  · exact settings.selector.pairwise_locatedBelow document round.path
  · exact .nil

theorem at?_of_mem_marked {round : Round ρ η} {settings : Settings} {document : Element}
    {x : List Nat × Element} (h : x ∈ round.marked settings document) :
    document.at? x.1 = some x.2 :=
  (Selector.mem_located.mp (mem_marked.mp h).2.1).1

section Courses

variable {m : Type → Type} [Monad m] [LawfulMonad m] (engine : Engine m)

/-- To act on a signal is to offer the marked elements there, or none. -/
theorem act_eq_offered (r : Renderer ρ η) (signal : Signal) (state : ρ) (e : Element) :
    engine.act r signal.action state e =
      Effect.ofPass <$>
        engine.offered r (if signal.discovers then engine.settings.selector.paths e else [])
          (e, .start state) := by
  have hall : engine.initialiseAll r state e =
      engine.offered r (engine.settings.selector.paths e) (e, .start state) := by
    rw [Engine.initialiseAll, Engine.initialiseMatching, Engine.sweep_eq_offered]
  -- Being ready and the event that asks for tables both come to a pass over all marked elements.
  cases signal with
  | ready =>
    rw [Signal.action, Engine.act, hall, Signal.discovers, if_pos rfl]
  | event name =>
    rw [Signal.action, Engine.act, Engine.raise, Signal.discovers]
    by_cases hname : name = Engine.initialiseEvent
    · rw [if_pos hname, if_pos (decide_eq_true hname), hall]
    · rw [if_neg hname, if_neg (by simpa using hname), Engine.offered, Engine.offer, map_pure,
        map_pure, map_pure]
      rfl

/-- The paths that a round looks through are those picked in its element, seen from the root. -/
theorem map_fst_marked {round : Round ρ η} (settings : Settings) {document e : Element}
    (he : document.at? round.path = some e) :
    (round.marked settings document).map Prod.fst =
      (if round.signal.discovers then settings.selector.paths e else []).map
        (round.path ++ ·) := by
  rw [marked, settings.selector.locatedBelow_of_at? he, Selector.paths]
  split
  · rw [List.map_map, List.map_map]
    rfl
  · rfl

/-- A round takes the course over the elements that are marked before it. -/
theorem perform_eq_course (round : Round ρ η) (s : Session ρ) :
    Session.perform engine round.renderer round.step s =
      (fun c => ((round.entry s c).report, (round.entry s c).after)) <$>
        engine.course round.renderer s.renderer (round.marked engine.settings s.document) := by
  cases he : s.document.at? round.path with
  | none =>
    -- Nothing stands at the target, so nothing is marked below it and the course is over at once.
    have hnone : round.marked engine.settings s.document = [] := by
      rw [marked, Selector.locatedBelow, he]
      split <;> rfl
    rw [hnone, Engine.course, map_pure, entry, Course.wearing_finished, he, Session.perform,
      show round.step.path = round.path from rfl, he]
    rfl
  | some e =>
    let told (page : Element × Pass ρ η) : Option (Except Failure (Report η)) × Session ρ :=
      (some ((page.2.outcome.mapError .refused).map .handles), ⟨page.1, page.2.renderer⟩)
    let paths := if round.signal.discovers then engine.settings.selector.paths e else []
    -- The pass inside the target is first seen from the root, and then as a course.
    calc Session.perform engine round.renderer round.step s
        = (fun page => told (s.document.update (fun _ => page.1) round.path, page.2)) <$>
            engine.offered round.renderer paths (e, .start s.renderer) := by
          rw [Session.perform, show round.step.path = round.path from rfl, he]
          show engine.act round.renderer round.signal.action s.renderer e >>= _ = _
          rw [act_eq_offered, bind_map_left, bind_pure_comp]
          rfl
      _ = told <$> engine.offered round.renderer (paths.map (round.path ++ ·))
            (s.document, .start s.renderer) := by
          rw [engine.offered_below round.renderer he, Functor.map_map]
      _ = told <$> (fun c => (s.document.wearing c.attributesOf, c.pass)) <$>
            engine.course round.renderer s.renderer (round.marked engine.settings s.document) := by
          rw [← map_fst_marked engine.settings he,
            engine.offered_eq_course round.renderer s.renderer
              (fun x hx => at?_of_mem_marked hx) (pairwise_marked ..)]
      _ = (fun c => ((round.entry s c).report, (round.entry s c).after)) <$>
            engine.course round.renderer s.renderer
              (round.marked engine.settings s.document) := by
          rw [Functor.map_map]
          congr 1
          funext c
          rw [entry, he]
          rfl

end Courses

/-- What one round does, where the renderer keeps a record. -/
structure Entry.Exact (record : ρ → Recording) (settings : Settings) (x : Entry ρ Nat) : Prop where
  /-- The elements accepted were marked, and none is accepted twice. -/
  nodup : x.accepted.Nodup
  mem_before (p : List Nat) : p ∈ x.accepted → p ∈ settings.selector.paths x.before.document
  /-- Those are marked afterwards that were marked before and have not been accepted. -/
  mem_after_iff (p : List Nat) : p ∈ settings.selector.paths x.after.document ↔
    p ∈ settings.selector.paths x.before.document ∧ p ∉ x.accepted
  /-- As many tables are made as elements are accepted. -/
  created : (record x.after.renderer).created =
    (record x.before.renderer).created + x.accepted.length
  /-- The handles that are reported are the numbers of these tables. -/
  handles (handles : List Nat) : x.report = some (.ok (.handles handles)) →
    handles = List.range' (record x.before.renderer).created x.accepted.length
  /-- A round that looks for marked elements and ends well has accepted all that it looked through. -/
  complete (handles : List Nat) (p : List Nat) :
    x.round.signal.discovers → x.report = some (.ok (.handles handles)) →
      p ∈ settings.selector.paths x.before.document → x.round.path <+: p → p ∈ x.accepted
  /-- Other rounds do nothing. -/
  idle : ¬ x.round.signal.discovers → x.Idle

end Round

/-- A round that reports handles has met no refusal, and these are its handles. -/
theorem Round.refusal_of_report {round : Round ρ η} {s : Session ρ} {marker : String}
    {marked : List (List Nat × Element)} {c : Course round.renderer marker s.renderer marked}
    {handles : List η} (h : (round.entry s c).report = some (.ok (.handles handles))) :
    c.refusal = none ∧ c.handles = handles := by
  obtain ⟨e, -, hout⟩ := Option.map_eq_some_iff.mp h
  rw [Course.pass, Pass.outcome] at hout
  -- A refusal would have been reported as a failure.
  cases hrefusal : c.refusal with
  | none =>
    rw [hrefusal] at hout
    cases hout
    exact ⟨rfl, rfl⟩
  | some refusal =>
    rw [hrefusal] at hout
    contradiction

/-- Every round does what it should. -/
theorem Round.entry_exact {record : ρ → Recording} {settings : Settings} {round : Round ρ Nat}
    (hr : round.renderer.Keeps record) (s : Session ρ)
    (c : Course round.renderer settings.markerAttribute s.renderer
      (round.marked settings s.document)) :
    (round.entry s c).Exact record settings := by
  have hpair := pairwise_marked round settings s.document
  -- What was accepted was marked, by the order in which a pass goes.
  have hmem {p : List Nat} (h : p ∈ c.acceptedPaths) :
      p ∈ (round.marked settings s.document).map Prod.fst :=
    c.acceptedPaths_prefix.subset h
  constructor
  case nodup => exact (Course.nodup_paths hpair).sublist c.acceptedPaths_prefix.sublist
  case mem_before =>
    intro p hp
    obtain ⟨x, hx, rfl⟩ := List.mem_map.mp (hmem hp)
    exact List.mem_map_of_mem (mem_marked.mp hx).2.1
  case mem_after_iff =>
    exact c.mem_paths_wearing_iff hr hpair fun x hx => (mem_marked.mp hx).2.1
  case created => exact c.created_course hr
  case handles =>
    intro handles hreport
    obtain ⟨-, rfl⟩ := refusal_of_report hreport
    show c.handles = List.range' (record s.renderer).created c.acceptedPaths.length
    rw [c.length_acceptedPaths]
    exact hr.handles_course c
  case complete =>
    intro handles p hdiscovers hreport hp hprefix
    have hnone := (refusal_of_report hreport).1
    obtain ⟨e, he⟩ := Selector.mem_paths.mp hp
    show p ∈ c.acceptedPaths
    -- Without a refusal all that was looked through has been accepted.
    rw [c.acceptedPaths_of_refusal_eq_none hnone]
    exact List.mem_map_of_mem (mem_marked.mpr ⟨hdiscovers, Selector.mem_located.mpr he, hprefix⟩)
  case idle =>
    intro hidle
    refine round.idle_entry s ?_ c
    rw [marked]
    exact if_neg hidle

end TableMarkup
