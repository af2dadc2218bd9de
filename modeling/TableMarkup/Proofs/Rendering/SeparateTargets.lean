import TableMarkup.Proofs.Rendering.Admission
import TableMarkup.Proofs.Rendering.Calls
import TableMarkup.Proofs.Rendering.Rounds

/-!
# Events on separate parts of a page

Two events ask for the tables of two parts of a page. If neither part lies in the other and the tables
have ids, none of them in both parts, it does not matter which event comes first: the first pass takes
no key that the second one asks about, and changes no attribute that the second one reads.

* `Recording.contents`: what a record holds, without numbers; `perm_contents_recordAll_append`: tables
  under different keys may be made in either order.
* `Recording.worn_of_keyed`: how far a pass gets says what it leaves on elements that have keys.
* `Recording.course_congr`: passes over the same elements, from records in which the same keys are
  taken.
* `Course.at?_wearing_of_apart`, `Course.wearing_comm`: what a pass below one path leaves of the rest
  of the page.
* `Session.Separate`: two parts of a page that have nothing to do with one another.
* `Session.run_raise_raise`: the second of two events goes as if it came alone;
  `Session.raise_separate` compares the two orders.
-/

namespace TableMarkup

namespace Recording

/-! ## Tables under different keys -/

/-- The tables that are there, by key and configuration, without their numbers. -/
def contents (r : Recording) : List (String × TableConfig) :=
  r.instances.map fun i => (i.key, i.config)

/-- Numbers aside, the latest tables do not depend on how many were made before. -/
theorem map_latest_congr (n k : Nat) (ts : List Made) :
    (latest n ts).map (fun i => (i.key, i.config)) =
      (latest k ts).map fun i => (i.key, i.config) := by
  induction ts generalizing n k with
  | nil => rfl
  | cons t later ih =>
    rw [latest, latest]
    -- Which tables are kept is decided by keys alone.
    split
    · exact ih (n + 1) (k + 1)
    · rw [List.map_cons, List.map_cons, ih (n + 1) (k + 1)]

/-- Tables under different keys do not replace each other, so the latest ones are those of both
lists. -/
theorem latest_append {ts us : List Made} (h : ∀ t ∈ ts, t.key ∉ us.map Made.key) (n : Nat) :
    latest n (ts ++ us) = latest n ts ++ latest (n + ts.length) us := by
  induction ts generalizing n with
  | nil => rfl
  | cons t later ih =>
    have hlater := ih (fun u hu => h u (List.mem_cons_of_mem _ hu)) (n + 1)
    -- A table of the first list gives way only to one of the first list.
    have hkey : t.key ∈ (later ++ us).map Made.key ↔ t.key ∈ later.map Made.key := by
      rw [List.map_append, List.mem_append]
      exact or_iff_left (h t List.mem_cons_self)
    rw [Nat.add_right_comm, Nat.add_assoc] at hlater
    rw [List.cons_append, latest, latest, hlater, List.length_cons]
    by_cases hmem : t.key ∈ later.map Made.key
    · rw [if_pos (hkey.mpr hmem), if_pos hmem]
    · rw [if_neg (hkey.not.mpr hmem), if_neg hmem, List.cons_append]

/-- What two lists of tables under different keys leave in a record: what was there under other
keys, and the latest of each list. -/
theorem contents_recordAll_append {r : Recording} (h : (r.instances.map Instance.key).Nodup)
    {ts us : List Made} (hkeys : ∀ t ∈ ts, t.key ∉ us.map Made.key) :
    (r.recordAll (ts ++ us)).contents =
      (r.instances.filter (·.key ∉ (ts ++ us).map Made.key)).map (fun i => (i.key, i.config)) ++
        ((latest 0 ts).map (fun i => (i.key, i.config)) ++
          (latest 0 us).map fun i => (i.key, i.config)) := by
  rw [contents, recordAll_eq h, latest_append hkeys, map_latest_congr 0 r.created,
    map_latest_congr 0 (r.created + ts.length)]
  simp only [List.map_append]

/-- Tables under different keys may be made in either order. -/
theorem perm_contents_recordAll_append {r : Recording}
    (h : (r.instances.map Instance.key).Nodup) {ts us : List Made}
    (hkeys : ∀ t ∈ ts, ∀ u ∈ us, t.key ≠ u.key) :
    (r.recordAll (ts ++ us)).contents.Perm (r.recordAll (us ++ ts)).contents := by
  have hts : ∀ t ∈ ts, t.key ∉ us.map Made.key := by
    intro t ht hmem
    obtain ⟨u, hu, hsame⟩ := List.mem_map.mp hmem
    exact hkeys t ht u hu hsame.symm
  have hus : ∀ u ∈ us, u.key ∉ ts.map Made.key := by
    intro u hu hmem
    obtain ⟨t, ht, hsame⟩ := List.mem_map.mp hmem
    exact hkeys t ht u hu hsame
  -- Which of the old tables stay depends on the set of keys, not on its order.
  have hothers : r.instances.filter (·.key ∉ (ts ++ us).map Made.key) =
      r.instances.filter (·.key ∉ (us ++ ts).map Made.key) := by
    refine List.filter_congr fun i _ => ?_
    simp only [List.map_append, List.mem_append, or_comm]
  rw [contents_recordAll_append h hts, contents_recordAll_append h hus, hothers]
  exact List.Perm.append_left _ List.perm_append_comm

theorem created_recordAll {r : Recording} (h : (r.instances.map Instance.key).Nodup)
    (ts : List Made) : (r.recordAll ts).created = r.created + ts.length := by
  rw [recordAll_eq h]

theorem version_recordAll {r : Recording} (h : (r.instances.map Instance.key).Nodup)
    (ts : List Made) : (r.recordAll ts).version = r.version := by
  rw [recordAll_eq h]

/-! ## Passes over elements with keys -/

theorem keyOf?_of_id {e : Element} {id : String} (h : e.id? = some id) : keyOf? e = some id := by
  rw [keyOf?, h]
  rfl

/-- An element with an `id` asks for a table under its `id`. -/
theorem exists_of_mem_making {configOf : Element → TableConfig} {n : Nat} {es : List Element}
    (h : ∀ e ∈ es, e.id?.isSome) {t : Made} (ht : t ∈ making configOf n es) :
    ∃ e ∈ es, e.id? = some t.key := by
  obtain ⟨⟨e, i⟩, hmem, rfl⟩ := List.mem_map.mp ht
  have he : e ∈ es := List.fst_mem_of_mem_zipIdx hmem
  obtain ⟨id, hid⟩ := Option.isSome_iff_exists.mp (h e he)
  refine ⟨e, he, ?_⟩
  show e.id? = some (keyAt i e)
  rw [hid, keyAt_of_some (keyOf?_of_id hid)]

variable {configOf : Element → TableConfig} {marker : String} {r r' : Recording}
  {marked : List (List Nat × Element)}

/-- Elements with keys of their own are not stamped: those that are accepted lose their marker, and
one that is refused stays as it is. -/
theorem worn_of_keyed (c : Course renderer marker r marked)
    (hkeyed : ∀ x ∈ marked, (keyOf? x.2).isSome) :
    c.worn =
      (marked.take c.handles.length).map (fun x => (x.1, x.2.attributes.erase marker)) ++
        ((marked.drop c.handles.length).take 1).map fun x => (x.1, x.2.attributes) := by
  -- On the course: as long as elements are accepted they lose their marker, and the first that is
  -- refused is left alone.
  induction c with
  | finished => rfl
  | @refused r path e rest config refusal h =>
    obtain ⟨key, hkey⟩ := Option.isSome_iff_exists.mp (hkeyed (path, e) List.mem_cons_self)
    have hattributes : (renderer.attempt marker r e config).attributes = e.attributes := by
      -- A stamp would be the key that the element has already.
      rcases (keeps_renderer.attempt_of_error h).1 with hsame | hstamped
      · exact hsame
      · rw [hstamped, stamped_of_some hkey]
    rw [Course.worn, hattributes]
    rfl
  | @accepted r path e rest config handle h later ih =>
    obtain ⟨key, hkey⟩ := Option.isSome_iff_exists.mp (hkeyed (path, e) List.mem_cons_self)
    have hattributes := (keeps_renderer.attempt_of_ok h).2.1
    rw [stamped_of_some hkey] at hattributes
    rw [Course.worn, hattributes, ih fun x hx => hkeyed x (List.mem_cons_of_mem _ hx)]
    rfl

/-- What comes of a pass over elements with keys does not depend on how many tables there have been. -/
theorem course_of_keyed (c : Course renderer marker r marked)
    (hconfigs : c.handOvers.map HandOver.config = c.handed.map fun x => configOf x.2)
    (hkeyed : ∀ x ∈ marked, (keyOf? x.2).isSome) :
    let tables := making configOf 0 (marked.map Prod.snd)
    c.handles.length = (r.admitted tables).length ∧
      c.refusal = (tables[(r.admitted tables).length]?).map (fun t => .occupied t.key) ∧
      c.final = r.recordAll (r.admitted tables) := by
  have hkeys : ∀ e ∈ marked.map Prod.snd, (keyOf? e).isSome := by
    intro e he
    obtain ⟨x, hx, rfl⟩ := List.mem_map.mp he
    exact hkeyed x hx
  have hcourse := course_renderer c hconfigs
  rwa [making_congr configOf hkeys r.created 0] at hcourse

/-- Passes over the same elements with keys go alike, if the same tables are admitted. -/
theorem course_congr (c : Course renderer marker r marked) (c' : Course renderer marker r' marked)
    (hc : c.handOvers.map HandOver.config = c.handed.map fun x => configOf x.2)
    (hc' : c'.handOvers.map HandOver.config = c'.handed.map fun x => configOf x.2)
    (hkeyed : ∀ x ∈ marked, (keyOf? x.2).isSome)
    (hadmitted : r.admitted (making configOf 0 (marked.map Prod.snd)) =
      r'.admitted (making configOf 0 (marked.map Prod.snd))) :
    c.handles.length = c'.handles.length ∧ c.refusal = c'.refusal ∧ c.worn = c'.worn := by
  obtain ⟨hlength, hrefusal, -⟩ := course_of_keyed c hc hkeyed
  obtain ⟨hlength', hrefusal', -⟩ := course_of_keyed c' hc' hkeyed
  -- The tables admitted say how many handles there are, and the rest follows from that number.
  have hhandles : c.handles.length = c'.handles.length := by
    rw [hlength, hlength', hadmitted]
  refine ⟨hhandles, ?_, ?_⟩
  · rw [hrefusal, hrefusal', hadmitted]
  · rw [worn_of_keyed c hkeyed, worn_of_keyed c' hkeyed, hhandles]

end Recording

/-! ## The page around a pass -/

namespace Course

variable {ρ η : Type} {r : Renderer ρ η} {marker : String} {marked : List (List Nat × Element)}

/-- An element is not changed by a pass that hands over nothing in it or around it. -/
theorem at?_wearing_of_apart {state : ρ} (c : Course r marker state marked) {p q : List Nat}
    (hbelow : ∀ x ∈ marked, p <+: x.1) (hpq : ¬ p <+: q) (hqp : ¬ q <+: p) (root : Element) :
    (root.wearing c.attributesOf).at? q = root.at? q := by
  -- A path that goes on from one part and lies below the other would make one of them contain the
  -- other.
  have hnone (x : List Nat) : c.worn.lookup (q ++ x) = none := by
    apply c.lookup_worn_eq_none
    intro hmem
    obtain ⟨y, hy, hpath⟩ := List.mem_map.mp hmem
    have hp : p <+: q ++ x := hpath ▸ hbelow y hy
    rcases List.prefix_or_prefix_of_prefix hp (List.prefix_append q x) with h | h
    · exact hpq h
    · exact hqp h
  rw [Element.at?_wearing]
  cases root.at? q with
  | none => rfl
  | some e =>
    -- All places inside show what they showed, so the whole element does.
    refine congrArg some (Element.eq_of_label? fun x => ?_)
    rw [Element.label?_wearing, Element.label?]
    congr 1
    funext y
    rw [attributesOf, hnone]
    rfl

/-- Passes below different paths change different elements. -/
theorem wearing_comm {state state' : ρ} {marked' : List (List Nat × Element)}
    (c : Course r marker state marked) (d : Course r marker state' marked')
    (happart : ∀ x ∈ marked, ∀ y ∈ marked', x.1 ≠ y.1) (root : Element) :
    (root.wearing c.attributesOf).wearing d.attributesOf =
      (root.wearing d.attributesOf).wearing c.attributesOf := by
  refine Element.eq_of_label? fun path => ?_
  -- At every place one of the two passes has left nothing.
  have hnone : c.worn.lookup path = none ∨ d.worn.lookup path = none := by
    by_cases hmem : path ∈ marked.map Prod.fst
    · obtain ⟨x, hx, rfl⟩ := List.mem_map.mp hmem
      refine .inr (d.lookup_worn_eq_none ?_)
      intro hmem'
      obtain ⟨y, hy, hsame⟩ := List.mem_map.mp hmem'
      exact happart x hx y hy hsame.symm
    · exact .inl (c.lookup_worn_eq_none hmem)
  simp only [label?_wearing_attributesOf, Option.map_map]
  congr 1
  funext label
  rcases hnone with h | h
  · simp [h]
  · simp [h]

theorem attributesOf_congr {state state' : ρ} {c : Course r marker state marked}
    {c' : Course r marker state' marked} (h : c.worn = c'.worn) :
    c.attributesOf = c'.attributesOf := by
  funext path e
  rw [attributesOf, attributesOf, h]

end Course

/-! ## Two events -/

namespace Session

open Recording (keyOf? keyAt making fresh)

/-- What is reported of two passes: as many handles, or the same failure. -/
inductive SameOutcome : Option (Except Failure (Report Nat)) →
    Option (Except Failure (Report Nat)) → Prop where
  | handles {hs hs' : List Nat} (h : hs.length = hs'.length) :
      SameOutcome (some (.ok (.handles hs))) (some (.ok (.handles hs')))
  | failed (failure : Failure) : SameOutcome (some (.error failure)) (some (.error failure))

theorem SameOutcome.symm {x y : Option (Except Failure (Report Nat))} (h : SameOutcome x y) :
    SameOutcome y x := by
  cases h with
  | handles h => exact .handles h.symm
  | failed failure => exact .failed failure

/-- What is reported of a course. -/
def reportOf {marker : String} {r : Recording} {marked : List (List Nat × Element)}
    (c : Course Recording.renderer marker r marked) : Option (Except Failure (Report Nat)) :=
  some ((c.pass.outcome.mapError .refused).map .handles)

/-- Courses with as many handles and the same refusal are reported alike, up to the numbers of the
handles. -/
theorem sameOutcome_reportOf {marker : String} {r r' : Recording}
    {marked : List (List Nat × Element)} (c : Course Recording.renderer marker r marked)
    (c' : Course Recording.renderer marker r' marked)
    (hhandles : c.handles.length = c'.handles.length) (hrefusal : c.refusal = c'.refusal) :
    SameOutcome (reportOf c) (reportOf c') := by
  unfold reportOf Course.pass Pass.outcome
  dsimp only
  rw [← hrefusal]
  cases c.refusal with
  | none => exact .handles hhandles
  | some refusal => exact .failed (.refused refusal)

/-- The course that the recording renderer takes over marked elements, if the host has no state. -/
def courseOver (engine : Engine Id) (r : Recording) (marked : List (List Nat × Element)) :
    Course Recording.renderer engine.settings.markerAttribute r marked :=
  engine.course Recording.renderer r marked

theorem configs_courseOver (engine : Engine Id) (r : Recording)
    (marked : List (List Nat × Element)) :
    (courseOver engine r marked).handOvers.map HandOver.config =
      (courseOver engine r marked).handed.map fun x => engine.buildConfig x.2 :=
  engine.configs_course Recording.renderer r marked

/-- The tables that marked elements with keys ask for. -/
def tablesOf (engine : Engine Id) (marked : List (List Nat × Element)) : List Made :=
  making engine.buildConfig 0 (marked.map Prod.snd)

/-- An event that asks for tables takes a course over the marked elements below its target. -/
theorem perform_raise (engine : Engine Id) {document e : Element} {path : List Nat}
    (he : document.at? path = some e) (r : Recording) {marked : List (List Nat × Element)}
    (hmarked : engine.settings.selector.locatedBelow document path = marked) :
    perform engine Recording.renderer ⟨path, .raise Engine.initialiseEvent⟩ ⟨document, r⟩ =
      (reportOf (courseOver engine r marked),
        ⟨document.wearing (courseOver engine r marked).attributesOf,
          (courseOver engine r marked).final⟩) := by
  subst hmarked
  -- The event is a round, and a round takes a course.
  let round : Round Recording Nat :=
    ⟨Recording.renderer, path, .event Engine.initialiseEvent⟩
  have hround := round.perform_eq_course engine ⟨document, r⟩
  unfold Round.entry at hround
  dsimp only at hround
  rw [show document.at? round.path = some e from he] at hround
  exact hround

/-- Two parts of a page that have nothing to do with one another. -/
structure Separate (selector : Selector) (document : Element) (p q : List Nat) (a b : Element) :
    Prop where
  /-- The parts are elements of the page. -/
  left : document.at? p = some a
  right : document.at? q = some b
  /-- Neither contains the other. -/
  not_prefix : ¬ p <+: q
  not_prefix' : ¬ q <+: p
  /-- All that is picked in them has an `id`. -/
  ids : ∀ x ∈ selector.find a, x.id?.isSome
  ids' : ∀ y ∈ selector.find b, y.id?.isSome
  /-- No such `id` is in both. -/
  distinct : ∀ x ∈ selector.find a, ∀ y ∈ selector.find b, x.id? ≠ y.id?

namespace Separate

variable {selector : Selector} {document a b : Element} {p q : List Nat}

theorem symm (h : Separate selector document p q a b) : Separate selector document q p b a where
  left := h.right
  right := h.left
  not_prefix := h.not_prefix'
  not_prefix' := h.not_prefix
  ids := h.ids'
  ids' := h.ids
  distinct := fun y hy x hx => (h.distinct x hx y hy).symm

/-- All that is picked in a part has a key of its own. -/
theorem keyed (h : Separate selector document p q a b) :
    ∀ x ∈ selector.locatedBelow document p, (keyOf? x.2).isSome := by
  intro x hx
  have hfind : x.2 ∈ selector.find a := by
    rw [← selector.map_snd_locatedBelow h.left]
    exact List.mem_map_of_mem hx
  obtain ⟨id, hid⟩ := Option.isSome_iff_exists.mp (h.ids x.2 hfind)
  rw [Recording.keyOf?_of_id hid]
  rfl

/-- No path leads into both parts. -/
theorem ne_of_mem (h : Separate selector document p q a b) :
    ∀ x ∈ selector.locatedBelow document p, ∀ y ∈ selector.locatedBelow document q, x.1 ≠ y.1 := by
  intro x hx y hy hsame
  have hp : p <+: x.1 := (Selector.mem_locatedBelow.mp hx).2
  have hq : q <+: x.1 := hsame ▸ (Selector.mem_locatedBelow.mp hy).2
  -- Of two paths that lead to one place, one leads on from the other.
  rcases List.prefix_or_prefix_of_prefix hp hq with hpq | hqp
  · exact h.not_prefix hpq
  · exact h.not_prefix' hqp

/-- The tables that are asked for in the two parts have different keys. -/
theorem key_ne {engine : Engine Id} (h : Separate engine.settings.selector document p q a b) :
    ∀ t ∈ tablesOf engine (engine.settings.selector.locatedBelow document p),
      ∀ u ∈ tablesOf engine (engine.settings.selector.locatedBelow document q), t.key ≠ u.key := by
  unfold tablesOf
  rw [Selector.map_snd_locatedBelow _ h.left, Selector.map_snd_locatedBelow _ h.right]
  intro t ht u hu hsame
  -- The keys are ids, and no id is in both parts.
  obtain ⟨x, hx, hxid⟩ := Recording.exists_of_mem_making h.ids ht
  obtain ⟨y, hy, hyid⟩ := Recording.exists_of_mem_making h.ids' hu
  exact h.distinct x hx y hy (by rw [hxid, hyid, hsame])

/-- Tables made for one part take no key that the other part asks about. -/
theorem admitted_recordAll {engine : Engine Id}
    (h : Separate engine.settings.selector document p q a b) (r : Recording) {made : List Made}
    (hmade : ∀ t ∈ made, t ∈ tablesOf engine (engine.settings.selector.locatedBelow document p)) :
    (r.recordAll made).admitted
        (tablesOf engine (engine.settings.selector.locatedBelow document q)) =
      r.admitted (tablesOf engine (engine.settings.selector.locatedBelow document q)) := by
  apply Recording.admitted_congr
  intro u hu
  rw [Recording.isSome_instance?_recordAll]
  apply or_iff_right
  intro hmem
  obtain ⟨t, ht, hsame⟩ := List.mem_map.mp hmem
  exact h.key_ne t (hmade t ht) u hu hsame

/-- A pass below the first part leaves the second part as it is. -/
theorem at?_wearing (h : Separate selector document p q a b) {marker : String} {r : Recording}
    (c : Course Recording.renderer marker r (selector.locatedBelow document p)) :
    (document.wearing c.attributesOf).at? q = some b := by
  have hbelow : ∀ x ∈ selector.locatedBelow document p, p <+: x.1 := by
    intro x hx
    exact (Selector.mem_locatedBelow.mp hx).2
  rw [c.at?_wearing_of_apart hbelow h.not_prefix h.not_prefix', h.right]

end Separate

/-- Of two events on separate parts the second one finds its part as it was before the first, and the
same tables are admitted. So its course goes like the one that it would take alone. -/
theorem run_raise_raise (engine : Engine Id) {document a b : Element} {p q : List Nat}
    (h : Separate engine.settings.selector document p q a b) (r : Recording) :
    let atP := engine.settings.selector.locatedBelow document p
    let atQ := engine.settings.selector.locatedBelow document q
    let c := courseOver engine r atP
    let d := courseOver engine r atQ
    ∃ report, SameOutcome (reportOf d) report ∧
      run engine Recording.renderer
          [⟨p, .raise Engine.initialiseEvent⟩, ⟨q, .raise Engine.initialiseEvent⟩] ⟨document, r⟩ =
        ([reportOf c, report],
          ⟨(document.wearing c.attributesOf).wearing d.attributesOf,
            r.recordAll (r.admitted (tablesOf engine atP) ++ r.admitted (tablesOf engine atQ))⟩) := by
  intro atP atQ c d
  -- This is the course that the second event really takes, from the record that the first has left.
  let e := courseOver engine c.final atQ
  have hfinal : c.final = r.recordAll (r.admitted (tablesOf engine atP)) :=
    (Recording.course_of_keyed c (configs_courseOver engine r atP) h.keyed).2.2
  -- The first part takes no key that the second one asks about.
  have hadmitted : c.final.admitted (tablesOf engine atQ) = r.admitted (tablesOf engine atQ) := by
    rw [hfinal]
    exact h.admitted_recordAll r fun t ht => (r.admitted_prefix _).subset ht
  -- The second part stands as it did, so the same elements are marked in it.
  have hbelow : engine.settings.selector.locatedBelow (document.wearing c.attributesOf) q = atQ := by
    show _ = engine.settings.selector.locatedBelow document q
    rw [Selector.locatedBelow_of_at? _ (h.at?_wearing c), Selector.locatedBelow_of_at? _ h.right]
  obtain ⟨hhandles, hrefusal, hworn⟩ := Recording.course_congr d e
    (configs_courseOver engine r atQ) (configs_courseOver engine c.final atQ) h.symm.keyed
    hadmitted.symm
  -- The record in the end holds the tables of the first part and then those of the second.
  have hlast : e.final =
      r.recordAll (r.admitted (tablesOf engine atP) ++ r.admitted (tablesOf engine atQ)) := by
    rw [(Recording.course_of_keyed e (configs_courseOver engine c.final atQ) h.symm.keyed).2.2,
      Recording.recordAll_append, ← hfinal]
    exact congrArg _ hadmitted
  refine ⟨reportOf e, sameOutcome_reportOf d e hhandles hrefusal, ?_⟩
  rw [run_cons, perform_raise engine h.left r rfl, run_cons,
    perform_raise engine (h.at?_wearing c) c.final hbelow, Course.attributesOf_congr hworn, ← hlast]
  rfl

/-- Two events on separate parts of a page may come in either order. Each has the same outcome, and the
document, the number of tables made and the tables that are there, with their keys and configurations,
are the same in the end. -/
theorem raise_separate (engine : Engine Id) (version : Option Version) (calls : List Call)
    {document a b : Element} {p q : List Nat}
    (h : Separate engine.settings.selector document p q a b) :
    let r := ((fresh version).serve calls).2
    let raise (path : List Nat) : Step := ⟨path, .raise Engine.initialiseEvent⟩
    let first := run engine Recording.renderer [raise p, raise q] ⟨document, r⟩
    let second := run engine Recording.renderer [raise q, raise p] ⟨document, r⟩
    List.Forall₂ SameOutcome first.1 second.1.reverse ∧
      first.2.document = second.2.document ∧
      first.2.renderer.created = second.2.renderer.created ∧
      first.2.renderer.version = second.2.renderer.version ∧
      first.2.renderer.contents.Perm second.2.renderer.contents := by
  intro r raise first second
  have hnodup : (r.instances.map Instance.key).Nodup := Recording.nodup_keys_serve version calls
  obtain ⟨report, hreport, hfirst⟩ := run_raise_raise engine h r
  obtain ⟨report', hreport', hsecond⟩ := run_raise_raise engine h.symm r
  have hone : first = _ := hfirst
  have htwo : second = _ := hsecond
  rw [hone, htwo]
  refine ⟨?_, Course.wearing_comm _ _ h.ne_of_mem document, ?_, ?_, ?_⟩
  -- Each event has the outcome that it would have alone, as the second of the two as well as the
  -- first.
  · exact .cons hreport' (.cons hreport.symm .nil)
  · dsimp only
    rw [Recording.created_recordAll hnodup, Recording.created_recordAll hnodup, List.length_append,
      List.length_append, Nat.add_comm (List.length _)]
  · dsimp only
    rw [Recording.version_recordAll hnodup, Recording.version_recordAll hnodup]
  · apply Recording.perm_contents_recordAll_append hnodup
    intro t ht u hu
    exact h.key_ne t ((r.admitted_prefix _).subset ht) u ((r.admitted_prefix _).subset hu)

/-- One part has two tables; the other has one that is there already and is to stay, so that its event
fails for this table. The failure comes last in one order and first in the other. -/
theorem raise_separate_refusal :
    let engine : Engine Id := ⟨Host.ofJson .null, .standard⟩
    let table (id destroy : String) : Element :=
      ⟨"table", .ofList [("id", .string id), ("data-role", .string "datatable"),
        ("data-dt_destroy", .string destroy)], []⟩
    let left : Element := ⟨"div", .empty, [table "a" "true", table "b" "true"]⟩
    let right : Element := ⟨"div", .empty, [table "c" "false"]⟩
    let page : Element := ⟨"body", .empty, [left, right]⟩
    let r := ((fresh none).serve [⟨table "c" "true", .start⟩]).2
    let raise (path : List Nat) : Step := ⟨path, .raise Engine.initialiseEvent⟩
    let first := run engine Recording.renderer [raise [0], raise [1]] ⟨page, r⟩
    let second := run engine Recording.renderer [raise [1], raise [0]] ⟨page, r⟩
    let failures (reports : List (Option (Except Failure (Report Nat)))) :=
      reports.map fun report => report.bind fun | .error failure => some failure | .ok _ => none
    Separate engine.settings.selector page [0] [1] left right ∧
      List.Forall₂ SameOutcome first.1 second.1.reverse ∧
      failures first.1 = [none, some (.refused (.occupied "c"))] ∧
      failures second.1 = [some (.refused (.occupied "c")), none] ∧
      first.2.document = second.2.document ∧
      first.2.renderer.contents.Perm second.2.renderer.contents ∧
      second.2.renderer.contents.map Prod.fst = ["c", "a", "b"] := by
  intro engine table left right page r raise first second failures
  have hseparate : Separate engine.settings.selector page [0] [1] left right :=
    { left := rfl
      right := rfl
      not_prefix := by decide
      not_prefix' := by decide
      ids := by decide +kernel
      ids' := by decide +kernel
      distinct := by decide +kernel }
  obtain ⟨houtcomes, hdocument, -, -, hcontents⟩ :=
    raise_separate engine none [⟨table "c" "true", .start⟩] hseparate
  refine ⟨hseparate, houtcomes, ?_, ?_, hdocument, hcontents, ?_⟩
  · decide +kernel
  · decide +kernel
  · decide +kernel

end Session

end TableMarkup
