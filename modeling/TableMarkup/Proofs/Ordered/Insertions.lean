import TableMarkup.Ordered

/-!
# Entries inserted one after the other

What a table of entries holds after others have been inserted in a row, each name of these once.

* `Members.get?_eq_some_iff`: where every name stands once, a look-up finds the entries that are there.
* `Members.ofList_map`: members are put in order by their names, whatever their values are.
* `Ordered.insertAll`: the table after all insertions; `get?_insertAll` and `names_insertAll` say what
  a look-up sees in it, and in which order the names stand.
-/

namespace TableMarkup

namespace Members

variable {α β : Type}

theorem names_cons (entry : String × α) (rest : Members α) :
    names (entry :: rest) = entry.1 :: names rest := rfl

/-- What a look-up finds is one of the entries. -/
theorem mem_of_get? {name : String} {value : α} {entries : Members α}
    (h : get? name entries = some value) : (name, value) ∈ entries := by
  induction entries with
  | nil => contradiction
  | cons entry rest ih =>
    obtain ⟨first, v⟩ := entry
    rw [get?] at h
    split at h
    · next hname =>
      rw [hname, Option.some.inj h]
      exact List.mem_cons_self
    · exact List.mem_cons_of_mem _ (ih h)

/-- A look-up finds nothing just where no entry has the name. -/
theorem get?_eq_none_iff {name : String} {entries : Members α} :
    get? name entries = none ↔ name ∉ names entries := by
  refine ⟨fun h hmem => ?_, get?_eq_none⟩
  induction entries with
  | nil => exact absurd hmem List.not_mem_nil
  | cons entry rest ih =>
    obtain ⟨first, v⟩ := entry
    rw [get?] at h
    split at h
    · contradiction
    · next hne => exact ih h ((List.mem_cons.mp hmem).resolve_left hne)

/-- Where every name stands once, a look-up finds the entries that are there. -/
theorem get?_eq_some_iff {name : String} {value : α} {entries : Members α}
    (h : (names entries).Nodup) : get? name entries = some value ↔ (name, value) ∈ entries := by
  refine ⟨mem_of_get?, fun hmem => ?_⟩
  induction entries with
  | nil => exact absurd hmem List.not_mem_nil
  | cons entry rest ih =>
    obtain ⟨first, v⟩ := entry
    rw [names_cons, List.nodup_cons] at h
    rw [get?]
    rcases List.mem_cons.mp hmem with heq | hrest
    · cases heq
      rw [if_pos rfl]
    -- An entry further on is found since no entry of the same name stands before it.
    · have hmem : name ∈ names rest := List.mem_map_of_mem hrest
      have hne : name ≠ first := fun hname => h.1 (hname ▸ hmem)
      rw [if_neg hne]
      exact ih h.2 hrest

/-- A look-up among changed values finds the changed value. -/
theorem get?_map (f : α → β) (name : String) (entries : Members α) :
    get? name (entries.map fun entry => (entry.1, f entry.2)) = (get? name entries).map f := by
  induction entries with
  | nil => rfl
  | cons entry rest ih =>
    rw [List.map_cons, get?, get?, ih]
    split <;> rfl

theorem names_map (f : α → β) (entries : Members α) :
    names (entries.map fun entry => (entry.1, f entry.2)) = names entries := by
  rw [names, List.map_map]
  rfl

/-- To insert a member and to change all values can be done in either order. -/
theorem insert_map (f : α → β) (name : String) (value : α) (members : Members α) :
    insert name (f value) (members.map fun entry => (entry.1, f entry.2)) =
      (insert name value members).map fun entry => (entry.1, f entry.2) := by
  induction members with
  | nil => rfl
  | cons entry rest ih =>
    rw [List.map_cons, insert, insert, ih]
    split
    · rfl
    · split <;> rfl

/-- To put members in order and to change their values can be done in either order. -/
theorem ofList_map (f : α → β) (entries : List (String × α)) :
    ofList (entries.map fun entry => (entry.1, f entry.2)) =
      (ofList entries).map fun entry => (entry.1, f entry.2) := by
  -- Induction on the entries, for any members that they are inserted into.
  suffices ∀ start : Members α,
      (entries.map fun entry => (entry.1, f entry.2)).foldl
          (fun members entry => insert entry.1 entry.2 members)
          (start.map fun entry => (entry.1, f entry.2)) =
        (entries.foldl (fun members entry => insert entry.1 entry.2 members) start).map
          fun entry => (entry.1, f entry.2) from this []
  induction entries with
  | nil => exact fun start => rfl
  | cons entry rest ih =>
    intro start
    simp only [List.map_cons, List.foldl_cons, insert_map]
    exact ih _

end Members

namespace Ordered

variable {α : Type}

/-- The table after entries have been inserted, one after the other. -/
def insertAll (t : Ordered α) (entries : List (String × α)) : Ordered α :=
  entries.foldl (fun t entry => t.insert entry.1 entry.2) t

theorem insertAll_cons (t : Ordered α) (entry : String × α) (rest : List (String × α)) :
    t.insertAll (entry :: rest) = (t.insert entry.1 entry.2).insertAll rest := rfl

/-- A look-up sees what was inserted, and else what was there. -/
theorem get?_insertAll (t : Ordered α) {entries : List (String × α)}
    (h : (Members.names entries).Nodup) (name : String) :
    (t.insertAll entries).get? name = (Members.get? name entries).or (t.get? name) := by
  induction entries generalizing t with
  | nil => rfl
  | cons entry rest ih =>
    obtain ⟨first, v⟩ := entry
    rw [Members.names_cons, List.nodup_cons] at h
    rw [insertAll_cons, ih (t.insert first v) h.2, Members.get?]
    by_cases hname : name = first
    · subst hname
      rw [if_pos rfl, Members.get?_eq_none h.1, get?_insert_self]
      rfl
    · rw [if_neg hname, get?_insert_of_ne t hname]

/-- New names come last, in the order in which they are inserted. -/
theorem names_insertAll (t : Ordered α) {entries : List (String × α)}
    (h : (Members.names entries).Nodup) :
    (t.insertAll entries).names =
      t.names ++ (Members.names entries).filter (· ∉ t.names) := by
  induction entries generalizing t with
  | nil => exact (List.append_nil _).symm
  | cons entry rest ih =>
    obtain ⟨first, v⟩ := entry
    rw [Members.names_cons, List.nodup_cons] at h
    rw [insertAll_cons, ih (t.insert first v) h.2, names_insert, Members.names_cons]
    by_cases hmem : first ∈ t.names
    · rw [if_pos hmem, List.filter_cons_of_neg (by simpa using hmem)]
    · -- The first name does not come again, so it makes no difference to those behind it.
      have hrest : (Members.names rest).filter (· ∉ t.names ++ [first]) =
          (Members.names rest).filter (· ∉ t.names) := by
        refine List.filter_congr fun name hname => ?_
        have hne : name ≠ first := fun heq => h.1 (heq ▸ hname)
        simp only [List.mem_append, List.mem_singleton, or_iff_left hne]
      rw [if_neg hmem, List.filter_cons_of_pos (by simpa using hmem), hrest,
        List.append_assoc, List.singleton_append]

end Ordered

end TableMarkup
