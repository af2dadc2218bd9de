import Mathlib.Data.Fin.Tuple.Basic
import Mathlib.Data.List.FinRange
import Mathlib.Data.List.Induction
import TableMarkup.Proofs.Rendering.Keys

/-!
# The record of tables made one after the other

What a record holds follows from the tables that were made: for each key the last of them, in the
order in which they were made. And from the tables it follows whether all of them could be made: none
may come to a key that is taken, unless it is to take the place.

* `Recording.recordAll` makes tables; `Recording.latest` are those that no later one replaces.
* `recordAll_eq`: a record holds the latest tables, behind those under other keys that it held
  before; `recordAll_fresh` is the case of a record that begins empty.
* `isSome_instance?_recordAll`: the keys that are taken.
* `admits_fresh_iff`: when none of the tables is refused.
* `latest_ofFn`: the latest tables by their positions.
-/

namespace TableMarkup

/-- A table that is made: its key, and what it is configured with. -/
structure Made where
  key : String
  config : TableConfig

namespace Recording

/-- The record after tables have been made, one after the other. -/
def recordAll (r : Recording) (tables : List Made) : Recording :=
  tables.foldl (fun r t => r.record t.key t.config) r

/-- The last table of every key, in the order in which they were made; `n` were made before. -/
def latest (n : Nat) : List Made → List Instance
  | [] => []
  | t :: later =>
    if t.key ∈ later.map Made.key then latest (n + 1) later
    else ⟨n, t.key, t.config⟩ :: latest (n + 1) later

/-- None of the tables comes to a key that is taken and not free for it. -/
def Admits (r : Recording) : List Made → Prop
  | [] => True
  | t :: later => ¬ r.Occupied t.key t.config ∧ (r.record t.key t.config).Admits later

theorem recordAll_append (r : Recording) (ts us : List Made) :
    r.recordAll (ts ++ us) = (r.recordAll ts).recordAll us :=
  List.foldl_append

theorem recordAll_cons (r : Recording) (t : Made) (ts : List Made) :
    r.recordAll (t :: ts) = (r.record t.key t.config).recordAll ts := rfl

/-! ## The latest tables -/

/-- Every key under which a table was made has a latest table. -/
theorem mem_keys_latest {key : String} {n : Nat} {ts : List Made} :
    key ∈ (latest n ts).map Instance.key ↔ key ∈ ts.map Made.key := by
  induction ts generalizing n with
  | nil => simp [latest]
  | cons t later ih =>
    rw [latest]
    -- A table that is dropped has its key from a later one, which is kept.
    split
    · next h =>
      rw [ih, List.map_cons, List.mem_cons]
      constructor
      · exact .inr
      · rintro (rfl | hkey)
        · exact h
        · exact hkey
    · rw [List.map_cons, List.map_cons, List.mem_cons, List.mem_cons, ih]

/-- No key is there twice. -/
theorem nodup_keys_latest (n : Nat) (ts : List Made) :
    ((latest n ts).map Instance.key).Nodup := by
  induction ts generalizing n with
  | nil => exact List.nodup_nil
  | cons t later ih =>
    rw [latest]
    split
    · exact ih (n + 1)
    · next h =>
      rw [List.map_cons, List.nodup_cons, mem_keys_latest]
      exact ⟨h, ih (n + 1)⟩

/-- One more table takes the place of an earlier one of its key, and stands last. -/
theorem latest_append_singleton (n : Nat) (ts : List Made) (t : Made) :
    latest n (ts ++ [t]) =
      (latest n ts).filter (·.key ≠ t.key) ++ [⟨n + ts.length, t.key, t.config⟩] := by
  induction ts generalizing n with
  | nil => simp [latest]
  | cons first later ih =>
    have hkey : first.key ∈ (later ++ [t]).map Made.key ↔
        first.key ∈ later.map Made.key ∨ first.key = t.key := by
      simp
    rw [List.cons_append, latest, latest, ih, List.length_cons, Nat.add_right_comm n 1,
      Nat.add_assoc n]
    -- The first table stays unless a later one or the new one has its key.
    by_cases hlater : first.key ∈ later.map Made.key
    · rw [if_pos (hkey.mpr (.inl hlater)), if_pos hlater]
    · by_cases hsame : first.key = t.key
      · rw [if_pos (hkey.mpr (.inr hsame)), if_neg hlater,
          List.filter_cons_of_neg (by simpa using hsame)]
      · rw [if_neg (by rw [hkey, not_or]; exact ⟨hlater, hsame⟩), if_neg hlater,
          List.filter_cons_of_pos (by simpa using hsame), List.cons_append]

/-- Where no key is there twice, to remove the first of a key is to remove all. -/
theorem eraseP_key {is : List Instance} (h : (is.map Instance.key).Nodup) (key : String) :
    is.eraseP (·.key = key) = is.filter (·.key ≠ key) := by
  induction is with
  | nil => rfl
  | cons i later ih =>
    rw [List.map_cons, List.nodup_cons] at h
    by_cases hkey : i.key = key
    · rw [List.eraseP_cons_of_pos (by simpa using hkey),
        List.filter_cons_of_neg (by simpa using hkey), eq_comm, List.filter_eq_self]
      -- The key was met once and does not come again.
      intro j hj
      have hne : j.key ≠ key := by
        rintro rfl
        exact h.1 (hkey ▸ List.mem_map_of_mem hj)
      simpa using hne
    · rw [List.eraseP_cons_of_neg (by simpa using hkey),
        List.filter_cons_of_pos (by simpa using hkey), ih h.2]

/-- One more table stands last, and those of its key are gone. -/
theorem instances_record {r : Recording} (h : (r.instances.map Instance.key).Nodup) (key : String)
    (config : TableConfig) :
    (r.record key config).instances =
      r.instances.filter (·.key ≠ key) ++ [⟨r.created, key, config⟩] := by
  -- The record erases one instance, which is the only one of its key.
  rw [record, eraseP_key h]

/-- To make a table leaves every key there at most once. -/
theorem nodup_keys_record {r : Recording} (h : (r.instances.map Instance.key).Nodup) (key : String)
    (config : TableConfig) : ((r.record key config).instances.map Instance.key).Nodup := by
  have hothers : ((r.instances.filter (·.key ≠ key)).map Instance.key).Nodup :=
    h.sublist (List.filter_sublist.map _)
  rw [instances_record h, List.map_append, List.nodup_append]
  refine ⟨hothers, List.nodup_singleton _, ?_⟩
  -- The others had their table of this key taken out.
  intro k hk k' hk'
  obtain ⟨i, hi, rfl⟩ := List.mem_map.mp hk
  rw [List.mem_singleton.mp hk']
  simpa using (List.mem_filter.mp hi).2

/-- After tables have been made the latest of them are there, behind those under other keys. -/
theorem recordAll_eq {r : Recording} (h : (r.instances.map Instance.key).Nodup) (ts : List Made) :
    r.recordAll ts =
      { r with
        instances := r.instances.filter (·.key ∉ ts.map Made.key) ++ latest r.created ts
        created := r.created + ts.length } := by
  -- On the tables made; that no key is there twice is kept by each of them, and lets the erasing of
  -- one instance be read as a filter.
  induction ts generalizing r with
  | nil => simp [recordAll, latest]
  | cons t later ih =>
    have hfilter : (r.record t.key t.config).instances.filter (·.key ∉ later.map Made.key) ++
        latest (r.created + 1) later =
        r.instances.filter (·.key ∉ (t :: later).map Made.key) ++ latest r.created (t :: later) := by
      rw [instances_record h, List.filter_append, List.filter_filter, List.append_assoc, latest]
      congr 1
      -- To take out one key and then the rest is to take out all of them.
      · refine List.filter_congr fun i _ => ?_
        rw [Bool.eq_iff_iff]
        simp only [Bool.and_eq_true, decide_eq_true_iff, List.map_cons, List.mem_cons, not_or,
          ne_eq, and_comm]
      -- The table just made gives way only to a later one of its own key.
      · by_cases hlater : t.key ∈ later.map Made.key
        · rw [if_pos hlater, List.filter_cons_of_neg (by simpa using hlater)]
          rfl
        · rw [if_neg hlater, List.filter_cons_of_pos (by simpa using hlater)]
          rfl
    rw [recordAll_cons, ih (nodup_keys_record h t.key t.config), created_record, hfilter,
      List.length_cons, Nat.add_right_comm, Nat.add_assoc]
    rfl

/-- A record that begins empty holds the latest tables, and knows how many were made. -/
theorem recordAll_fresh (version : Option Version) (ts : List Made) :
    (fresh version).recordAll ts = ⟨version, latest 0 ts, ts.length⟩ := by
  have hnone : ((fresh version).instances.map Instance.key).Nodup := List.nodup_nil
  rw [recordAll_eq hnone]
  -- Nothing was there before, so nothing stands in front.
  show (⟨version, latest 0 ts, 0 + ts.length⟩ : Recording) = _
  rw [Nat.zero_add]

/-! ## Keys that are taken -/

/-- A key is taken after a table has been made under it, or if it was taken before. -/
theorem isSome_instance?_record (r : Recording) (key : String) (config : TableConfig)
    (other : String) :
    ((r.record key config).instance? other).isSome ↔
      other = key ∨ (r.instance? other).isSome := by
  rw [isSome_instance?_iff, isSome_instance?_iff]
  show (∃ i ∈ r.instances.eraseP (·.key = key) ++ [⟨r.created, key, config⟩], i.key = other) ↔ _
  constructor
  · intro h
    obtain ⟨i, hi, rfl⟩ := h
    rcases List.mem_append.mp hi with hold | hnew
    · exact .inr ⟨i, List.mem_of_mem_eraseP hold, rfl⟩
    · rw [List.mem_singleton.mp hnew]
      exact .inl rfl
  · intro h
    by_cases hsame : other = key
    · exact ⟨_, List.mem_append_right _ (List.mem_singleton_self _), hsame.symm⟩
    · obtain ⟨i, hi, rfl⟩ := h.resolve_left hsame
      -- Only an instance of the key itself gives way.
      exact ⟨i, List.mem_append_left _ ((List.mem_eraseP_of_neg (by simpa using hsame)).mpr hi), rfl⟩

/-- A key is taken after tables have been made if one of them has it, or if it was taken before. -/
theorem isSome_instance?_recordAll (r : Recording) (ts : List Made) (key : String) :
    ((r.recordAll ts).instance? key).isSome ↔
      key ∈ ts.map Made.key ∨ (r.instance? key).isSome := by
  induction ts generalizing r with
  | nil => simp [recordAll]
  | cons t later ih =>
    -- Whichever table is made first, its key is taken at the end.
    rw [recordAll_cons, ih, isSome_instance?_record, List.map_cons, List.mem_cons, ← or_assoc,
      or_comm (a := key ∈ later.map Made.key)]

/-! ## Tables that are not refused -/

/-- After some tables the next ones are admitted if none of them comes to a key of a table before it,
other than to take its place. -/
theorem admits_recordAll_iff {version : Option Version} {before ts : List Made} :
    ((fresh version).recordAll before).Admits ts ↔
      (∀ s ∈ before, ∀ t ∈ ts, s.key = t.key → t.config.destroys) ∧
        ts.Pairwise fun s t => s.key = t.key → t.config.destroys := by
  induction ts generalizing before with
  | nil => simp [Admits]
  | cons t later ih =>
    -- With the next table among those before, the record is again one that began empty.
    have hrecord : ((fresh version).recordAll before).record t.key t.config =
        (fresh version).recordAll (before ++ [t]) := by
      rw [recordAll_append]
      rfl
    have hfree : ¬ ((fresh version).recordAll before).Occupied t.key t.config ↔
        ∀ s ∈ before, s.key = t.key → t.config.destroys := by
      have hnone : ¬ ((fresh version).instance? t.key).isSome := Bool.false_ne_true
      rw [Occupied, isSome_instance?_recordAll, or_iff_left hnone, List.mem_map]
      grind
    rw [Admits, hfree, hrecord, ih, List.pairwise_cons]
    constructor
    · rintro ⟨hfirst, hbefore, hlater⟩
      refine ⟨?_, ?_, hlater⟩
      · intro s hs u hu
        rcases List.mem_cons.mp hu with rfl | hu
        · exact hfirst s hs
        · exact hbefore s (List.mem_append_left _ hs) u hu
      · exact fun u hu => hbefore t (List.mem_append_right _ (List.mem_singleton_self t)) u hu
    · rintro ⟨hbefore, hfirst, hlater⟩
      refine ⟨fun s hs => hbefore s hs t List.mem_cons_self, ?_, hlater⟩
      intro s hs u hu
      rcases List.mem_append.mp hs with hs | hs
      · exact hbefore s hs u (List.mem_cons_of_mem _ hu)
      · rw [List.mem_singleton] at hs
        subst hs
        exact hfirst u hu

/-- All tables are made, from the beginning, if none comes to a key of one before it but to take its
place. -/
theorem admits_fresh_iff {version : Option Version} {ts : List Made} :
    (fresh version).Admits ts ↔ ts.Pairwise fun s t => s.key = t.key → t.config.destroys := by
  have h : ((fresh version).recordAll []).Admits ts ↔ _ := admits_recordAll_iff
  simpa [recordAll] using h

/-! ## Positions -/

/-- The latest tables are those at positions behind which their key does not come again. -/
theorem latest_ofFn (n : Nat) {count : Nat} (table : Fin count → Made) :
    latest n (List.ofFn table) =
      ((List.finRange count).filter fun i => ∀ k, i < k → (table k).key ≠ (table i).key).map
        fun i => ⟨n + i, (table i).key, (table i).config⟩ := by
  induction count generalizing n with
  | zero => rfl
  | succ count ih =>
    have hlater : (table 0).key ∈ (List.ofFn fun i => table i.succ).map Made.key ↔
        ∃ k : Fin count, (table k.succ).key = (table 0).key := by
      simp [List.mem_ofFn]
    -- Behind the first position the tables are seen as if they stood alone.
    have htail : (((List.finRange count).map Fin.succ).filter
          fun i => ∀ k, i < k → (table k).key ≠ (table i).key).map
          (fun i : Fin (count + 1) => (⟨n + i, (table i).key, (table i).config⟩ : Instance)) =
        latest (n + 1) (List.ofFn fun i => table i.succ) := by
      rw [ih, List.filter_map, List.map_map]
      congr 1
      · funext i
        simp [Nat.add_right_comm, Nat.add_assoc]
      · congr 1
        funext i
        simp [Fin.forall_fin_succ]
    rw [List.ofFn_succ, List.finRange_succ, latest, ← htail]
    -- Whether the first table is one of the latest depends on its key coming again.
    by_cases h : ∃ k : Fin count, (table k.succ).key = (table 0).key
    · rw [if_pos (hlater.mpr h), List.filter_cons_of_neg]
      obtain ⟨k, hk⟩ := h
      simp only [decide_eq_true_eq, not_forall]
      exact ⟨k.succ, Fin.succ_pos k, fun hne => hne hk⟩
    · rw [if_neg (hlater.not.mpr h), List.filter_cons_of_pos]
      · rfl
      · simp only [decide_eq_true_eq]
        intro k hpos heq
        obtain ⟨k, rfl⟩ := Fin.exists_succ_eq.mpr hpos.ne'
        exact h ⟨k, heq⟩

end Recording

end TableMarkup
