import Mathlib.Data.List.Nodup
import TableMarkup.Proofs.Ordered.Insertions

/-!
# Entries in another order

Entries whose names are all different may be put in any order. What is kept in insertion order then
holds the same entries in another order, and what is kept in the order of names is the same.

* `Members.perm_ofList`, `Members.ofList_eq_of_perm`: members in the order of their names.
* `Ordered.perm_insertAll`, `Ordered.perm_erase`: entries in the order of their insertion.
-/

namespace TableMarkup

namespace Members

variable {α : Type}

theorem nodup_of_names {entries : Members α} (h : (names entries).Nodup) : entries.Nodup :=
  List.Nodup.of_map _ h

theorem names_perm {xs ys : Members α} (h : xs.Perm ys) : (names xs).Perm (names ys) :=
  h.map Prod.fst

/-- A look-up does not depend on the order of entries whose names are different. -/
theorem get?_eq_of_perm {xs ys : Members α} (h : xs.Perm ys) (hxs : (names xs).Nodup)
    (name : String) : get? name xs = get? name ys := by
  have hys : (names ys).Nodup := (names_perm h).nodup_iff.mp hxs
  refine Option.ext fun value => ?_
  rw [get?_eq_some_iff hxs, get?_eq_some_iff hys, h.mem_iff]

/-- A new member comes between the others, which stay as they are. -/
theorem perm_insert {name : String} {members : Members α} (value : α)
    (h : name ∉ names members) : (insert name value members).Perm ((name, value) :: members) := by
  induction members with
  | nil => exact List.Perm.refl _
  | cons entry rest ih =>
    obtain ⟨first, v⟩ := entry
    rw [names_cons, List.mem_cons, not_or] at h
    unfold insert
    split
    · exact List.Perm.refl _
    · rw [if_neg h.1]
      exact ((ih h.2).cons _).trans (List.Perm.swap ..)

/-- Members of different names are put in order, and none is lost. -/
theorem perm_ofList {entries : List (String × α)} (h : (names entries).Nodup) :
    (ofList entries).Perm entries := by
  -- Induction on the entries, for any members that they are inserted into and whose names they do
  -- not share.
  suffices ∀ start : Members α, (names (entries ++ start)).Nodup →
      (entries.foldl (fun members entry => insert entry.1 entry.2 members) start).Perm
        (entries ++ start) by
    have hall := this [] (by rwa [List.append_nil])
    rwa [List.append_nil] at hall
  clear h
  induction entries with
  | nil => exact fun start _ => List.Perm.refl start
  | cons entry rest ih =>
    intro start hnodup
    rw [List.cons_append, names_cons, List.nodup_cons] at hnodup
    have hnew : entry.1 ∉ names start := by
      intro hmem
      refine hnodup.1 ?_
      rw [names, List.map_append]
      exact List.mem_append_right _ hmem
    -- The first entry is a member now, and the names are the same ones altogether.
    have hmoved : (rest ++ insert entry.1 entry.2 start).Perm (entry :: (rest ++ start)) :=
      ((perm_insert entry.2 hnew).append_left rest).trans List.perm_middle
    have hrest : (names (rest ++ insert entry.1 entry.2 start)).Nodup := by
      rw [(names_perm hmoved).nodup_iff, names_cons, List.nodup_cons]
      exact hnodup
    exact (ih _ hrest).trans hmoved

/-- Members that are in order and the same up to order are the same. -/
theorem eq_of_perm_of_sorted {xs ys : Members α} (h : xs.Perm ys) (hxs : Sorted xs)
    (hys : Sorted ys) : xs = ys := by
  refine h.eq_of_pairwise ?_ (List.pairwise_map.mp hxs) (List.pairwise_map.mp hys)
  intro x y _ _ hxy hyx
  exact absurd (String.lt_trans hxy hyx) (String.lt_irrefl _)

/-- The order in which members of different names come does not matter. -/
theorem ofList_eq_of_perm {xs ys : List (String × α)} (h : xs.Perm ys) (hxs : (names xs).Nodup) :
    ofList xs = ofList ys := by
  have hys : (names ys).Nodup := (names_perm h).nodup_iff.mp hxs
  have hperm : (ofList xs).Perm (ofList ys) :=
    (perm_ofList hxs).trans (h.trans (perm_ofList hys).symm)
  exact eq_of_perm_of_sorted hperm (sorted_ofList xs) (sorted_ofList ys)

end Members

namespace Ordered

variable {α : Type}

/-- Tables in which every look-up finds the same hold the same entries. -/
theorem perm_of_get? {s t : Ordered α} (h : ∀ name, s.get? name = t.get? name) :
    s.entries.Perm t.entries := by
  rw [List.perm_ext_iff_of_nodup (Members.nodup_of_names s.nodup) (Members.nodup_of_names t.nodup)]
  intro entry
  rw [← Members.get?_eq_some_iff s.nodup, ← Members.get?_eq_some_iff t.nodup]
  exact Eq.congr_left (h entry.1)

/-- The order in which entries are inserted shows in the order of the table, and in nothing else. -/
theorem perm_insertAll (t : Ordered α) {xs ys : List (String × α)} (h : xs.Perm ys)
    (hxs : (Members.names xs).Nodup) : (t.insertAll xs).entries.Perm (t.insertAll ys).entries := by
  have hys : (Members.names ys).Nodup := (Members.names_perm h).nodup_iff.mp hxs
  apply perm_of_get?
  intro name
  rw [get?_insertAll t hxs, get?_insertAll t hys, Members.get?_eq_of_perm h hxs]

theorem get?_eq_of_perm {s t : Ordered α} (h : s.entries.Perm t.entries) (name : String) :
    s.get? name = t.get? name :=
  Members.get?_eq_of_perm h s.nodup name

/-- Without a name, tables with the same entries have the same entries. -/
theorem perm_erase {s t : Ordered α} (h : s.entries.Perm t.entries) (name : String) :
    (s.erase name).entries.Perm (t.erase name).entries := by
  apply perm_of_get?
  intro other
  by_cases hname : other = name
  · rw [hname, get?_erase_self, get?_erase_self]
  · rw [get?_erase_of_ne s hname, get?_erase_of_ne t hname, get?_eq_of_perm h]

end Ordered

end TableMarkup
