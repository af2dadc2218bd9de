import TableMarkup.Proofs.Rendering.History
import TableMarkup.Proofs.Rendering.Recorder

/-!
# How far a pass of the recording renderer gets

A recording renderer makes the tables of a pass up to the first one that it does not admit, and with
that one the pass is over. Which tables are admitted depends on the keys that are taken when the pass
begins, and on nothing else that the record holds.

* `Recording.admitted`: the tables that are made of those asked for; `admitted_congr` says what this
  depends on.
* `Recording.making`: the tables that are asked for by elements in a row.
* `Recording.course_renderer`: what comes of a course, in terms of the tables admitted.
* `Engine.configs_course`: the configurations of a course, if the host has no effects.
-/

namespace TableMarkup

namespace Recording

/-! ## Tables that are admitted -/

/-- The tables that are made of those in a list: all before the first one whose key is taken. -/
def admitted (r : Recording) : List Made → List Made
  | [] => []
  | t :: later =>
    if r.Occupied t.key t.config then []
    else t :: (r.record t.key t.config).admitted later

/-- A table whose key is taken ends the pass, whatever comes behind it. -/
theorem admitted_of_occupied {r : Recording} {t : Made} (h : r.Occupied t.key t.config)
    (later : List Made) : r.admitted (t :: later) = [] :=
  if_pos h

/-- A table whose key is free is made, and those behind it meet the record with this table in it. -/
theorem admitted_of_free {r : Recording} {t : Made} (h : ¬ r.Occupied t.key t.config)
    (later : List Made) :
    r.admitted (t :: later) = t :: (r.record t.key t.config).admitted later :=
  if_neg h

/-- The tables admitted are the first ones of those asked for. -/
theorem admitted_prefix (r : Recording) (ts : List Made) : r.admitted ts <+: ts := by
  -- The record grows with every table that is made, so it varies along the induction.
  induction ts generalizing r with
  | nil => exact List.prefix_refl []
  | cons t later ih =>
    by_cases hocc : r.Occupied t.key t.config
    · rw [admitted_of_occupied hocc]
      exact List.nil_prefix
    · rw [admitted_of_free hocc, List.cons_prefix_cons]
      exact ⟨rfl, ih _⟩

/-- Tables are admitted if all of them are made. -/
theorem admits_iff {r : Recording} {ts : List Made} : r.Admits ts ↔ r.admitted ts = ts := by
  induction ts generalizing r with
  | nil => exact iff_of_true trivial rfl
  | cons t later ih =>
    rw [Admits]
    by_cases hocc : r.Occupied t.key t.config
    · rw [admitted_of_occupied hocc]
      -- Nothing is made then, and there was something to be made.
      exact iff_of_false (fun h => h.1 hocc) (List.cons_ne_nil _ _).symm
    · rw [admitted_of_free hocc, List.cons.injEq, ih, and_iff_right hocc, and_iff_right rfl]

/-- Which tables are admitted depends on the keys that are taken, among those of the tables. -/
theorem admitted_congr {r r' : Recording} {ts : List Made}
    (h : ∀ t ∈ ts, (r.instance? t.key).isSome ↔ (r'.instance? t.key).isSome) :
    r.admitted ts = r'.admitted ts := by
  induction ts generalizing r r' with
  | nil => rfl
  | cons t later ih =>
    have hocc : r.Occupied t.key t.config ↔ r'.Occupied t.key t.config :=
      and_congr_left fun _ => h t List.mem_cons_self
    -- The table goes into both records, so the same keys are taken in them afterwards.
    have hlater : (r.record t.key t.config).admitted later =
        (r'.record t.key t.config).admitted later := by
      apply ih
      intro u hu
      rw [isSome_instance?_record, isSome_instance?_record, h u (List.mem_cons_of_mem _ hu)]
    rw [admitted, admitted, hlater]
    exact if_congr hocc rfl rfl

/-! ## Tables that are asked for -/

/-- The tables that come of elements handed over in a row, when `n` have been made before. -/
def making (configOf : Element → TableConfig) (n : Nat) (es : List Element) : List Made :=
  (es.zipIdx n).map fun (e, i) => ⟨keyAt i e, configOf e⟩

theorem making_cons (configOf : Element → TableConfig) (n : Nat) (e : Element)
    (es : List Element) :
    making configOf n (e :: es) = ⟨keyAt n e, configOf e⟩ :: making configOf (n + 1) es := by
  rw [making, List.zipIdx_cons]
  rfl

/-- The tables asked for, by the positions of their elements. -/
theorem making_eq_ofFn (configOf : Element → TableConfig) (es : List Element) :
    making configOf 0 es =
      List.ofFn fun i : Fin es.length => ⟨keyAt i es[i], configOf es[i]⟩ := by
  refine List.ext_getElem (by simp [making]) fun i h₁ h₂ => ?_
  simp [making]

/-- What elements with keys of their own ask for does not depend on what has been made before. -/
theorem making_congr (configOf : Element → TableConfig) {es : List Element}
    (h : ∀ e ∈ es, (keyOf? e).isSome) (n k : Nat) :
    making configOf n es = making configOf k es := by
  induction es generalizing n k with
  | nil => rfl
  | cons e es ih =>
    obtain ⟨key, hkey⟩ := Option.isSome_iff_exists.mp (h e List.mem_cons_self)
    -- The number is seen by made-up keys only, and there is none here.
    rw [making_cons, making_cons, keyAt_of_some hkey, keyAt_of_some hkey,
      ih (fun x hx => h x (List.mem_cons_of_mem _ hx)) (n + 1) (k + 1)]

/-! ## Courses -/

variable {configOf : Element → TableConfig} {marker : String} {r : Recording}
  {marked : List (List Nat × Element)}

/-- A recording renderer by itself makes the tables that it admits, and refuses the next one, if there
is one, because of its key. -/
theorem course_renderer (c : Course renderer marker r marked)
    (hconfigs : c.handOvers.map HandOver.config = c.handed.map fun x => configOf x.2) :
    let tables := making configOf r.created (marked.map Prod.snd)
    c.handles.length = (r.admitted tables).length ∧
      c.refusal = (tables[(r.admitted tables).length]?).map (fun t => .occupied t.key) ∧
      c.final = r.recordAll (r.admitted tables) := by
  -- On the course, so every case is one hand-over: the configurations of the course are peeled off
  -- with it, and the record is that of a later state each time.
  induction c with
  | finished => exact ⟨rfl, rfl, rfl⟩
  | @refused r path e rest config refusal h =>
    obtain rfl : config = configOf e := by simpa [Course.handOvers, Course.handed] using hconfigs
    -- Nothing but an occupied key makes the recording renderer refuse.
    have hocc : r.Occupied (keyAt r.created e) (configOf e) := by
      by_contra hfree
      rw [attempt_of_free marker hfree] at h
      contradiction
    have hrefusal : refusal = .occupied (keyAt r.created e) := by
      rw [attempt_of_occupied marker hocc] at h
      exact (Except.error.inj h).symm
    have hfinal : (renderer.attempt marker r e (configOf e)).renderer = r := by
      rw [attempt_of_occupied marker hocc]
    dsimp only
    rw [List.map_cons, making_cons, admitted_of_occupied hocc]
    exact ⟨rfl, congrArg some hrefusal, hfinal⟩
  | @accepted r path e rest config handle h later ih =>
    rw [Course.handOvers, Course.handed, List.map_cons, List.map_cons, List.cons.injEq]
      at hconfigs
    obtain ⟨rfl, hlater⟩ := hconfigs
    -- What was accepted was free, and is the first table admitted.
    obtain ⟨-, -, hfree, hrecord⟩ := keeps_renderer.attempt_of_ok h
    simp only [id_eq] at hfree hrecord
    obtain ⟨hlength, hrefusal, hfinal⟩ := ih hlater
    dsimp only
    rw [List.map_cons, making_cons, admitted_of_free hfree, recordAll_cons,
      ← created_record r (keyAt r.created e) (configOf e), ← hrecord]
    exact ⟨congrArg (· + 1) hlength, hrefusal, hfinal⟩

/-- A course meets no refusal if all tables asked for are admitted. -/
theorem refusal_eq_none_iff (c : Course renderer marker r marked)
    (hconfigs : c.handOvers.map HandOver.config = c.handed.map fun x => configOf x.2) :
    c.refusal = none ↔ r.Admits (making configOf r.created (marked.map Prod.snd)) := by
  have hprefix := r.admitted_prefix (making configOf r.created (marked.map Prod.snd))
  rw [(course_renderer c hconfigs).2.1, Option.map_eq_none_iff, List.getElem?_eq_none_iff, admits_iff]
  constructor
  · intro hlength
    exact hprefix.eq_of_length_le hlength
  · intro hall
    rw [hall]

end Recording

/-- A host without effects gives each element its configuration. -/
theorem Engine.configs_course {ρ η : Type} (engine : Engine Id) (r : Renderer ρ η) (state : ρ)
    (marked : List (List Nat × Element)) :
    let c : Course r engine.settings.markerAttribute state marked := engine.course r state marked
    c.handOvers.map HandOver.config = c.handed.map fun x => engine.buildConfig x.2 := by
  induction marked generalizing state with
  | nil => rfl
  | cons x rest ih =>
    obtain ⟨path, e⟩ := x
    intro c
    -- The course is a local definition; only its first step is opened.
    have hc : c = engine.course r state ((path, e) :: rest) := rfl
    clear_value c
    rw [course] at hc
    dsimp only [bind, pure] at hc
    split at hc
    · subst hc
      rfl
    · next handle h =>
      subst hc
      rw [Course.handOvers, Course.handed, List.map_cons, List.map_cons, ih]

end TableMarkup
