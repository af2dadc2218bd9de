import Mathlib.Data.List.Basic
import TableMarkup.Markup.Attributes

/-!
# Laws of attributes

What is seen of attributes after one of them has been set or removed.

* `get?_insert_self`, `get?_insert_of_ne`, `get?_erase_self`, `get?_erase_of_ne`: what a look-up
  sees, in whatever letter case it asks.
* `entries_erase`, `filter_entries_insert`: the other attributes keep their values and their order.
* `map_afterPrefix`: the attributes behind a prefix, in their order.
* `ofList_entries`: attributes that are set anew, one after the other, are the same as before.
-/

namespace TableMarkup

/-- What follows a prefix is what the text has behind it. -/
theorem Text.afterPrefix?_eq_some_iff {start s rest : String} :
    afterPrefix? start s = some rest ↔ s = start ++ rest := by
  rw [afterPrefix?, Option.map_eq_some_iff]
  constructor
  · rintro ⟨cs, hcs, rfl⟩
    have happend := List.isPrefixOf?_eq_some_iff_append_eq.mp hcs
    rw [← String.toList_inj, String.toList_append, String.toList_ofList, happend]
  · rintro rfl
    refine ⟨rest.toList, ?_, String.ofList_toList⟩
    rw [List.isPrefixOf?_eq_some_iff_append_eq, String.toList_append]

namespace Members

variable {α : Type}

/-- Where every name stands once, what is left after taking one is all the others. -/
theorem take_snd (name : String) {entries : Members α} (h : (names entries).Nodup) :
    (take name entries).2 = entries.filter (·.1 ≠ name) := by
  induction entries with
  | nil => rfl
  | cons entry rest ih =>
    obtain ⟨first, v⟩ := entry
    simp only [names, List.map_cons, List.nodup_cons] at h ih
    unfold take
    split
    · next heq =>
      subst heq
      -- The name does not come again, so that the rest is left as it is.
      have hrest : rest.filter (fun e => decide (e.1 ≠ name)) = rest := by
        rw [List.filter_eq_self]
        intro e he
        rw [decide_eq_true_iff]
        rintro rfl
        exact h.1 (List.mem_map_of_mem he)
      rw [List.filter_cons_of_neg (by simp), hrest]
    · next hne =>
      rw [List.filter_cons_of_pos (by simpa using Ne.symm hne)]
      simp [ih h.2]

/-- Setting a name leaves the others in their places. -/
theorem filter_replace (name : String) (value : α) (entries : Members α) :
    (replace name value entries).2.filter (·.1 ≠ name) = entries.filter (·.1 ≠ name) := by
  induction entries with
  | nil => simp [replace]
  | cons entry rest ih =>
    unfold replace
    split
    · next heq => simp [← heq]
    · simp only [List.filter_cons, ih]

/-- A name that is new is put last. -/
theorem replace_of_not_mem {name : String} {entries : Members α} (value : α)
    (h : name ∉ names entries) : (replace name value entries).2 = entries ++ [(name, value)] := by
  induction entries with
  | nil => rfl
  | cons entry rest ih =>
    obtain ⟨first, v⟩ := entry
    simp only [names, List.map_cons, List.mem_cons, not_or] at h ih
    rw [replace, if_neg h.1]
    show (first, v) :: (replace name value rest).2 = _
    rw [ih h.2, List.cons_append]

end Members

namespace Attributes

@[simp] theorem get?_insert_self (a : Attributes) (name : String) (value : Value) :
    (a.insert name value).get? name = some value :=
  Ordered.get?_insert_self ..

/-- Another name is not touched, if it is another one in lower case too. -/
theorem get?_insert_of_ne (a : Attributes) {name other : String}
    (h : Text.lower other ≠ Text.lower name) (value : Value) :
    (a.insert name value).get? other = a.get? other :=
  Ordered.get?_insert_of_ne _ h _

@[simp] theorem get?_erase_self (a : Attributes) (name : String) :
    (a.erase name).get? name = none :=
  Ordered.get?_erase_self ..

/-- Another name is left, if it is another one in lower case too. -/
theorem get?_erase_of_ne (a : Attributes) {name other : String}
    (h : Text.lower other ≠ Text.lower name) : (a.erase name).get? other = a.get? other :=
  Ordered.get?_erase_of_ne _ h

theorem text?_insert_string (a : Attributes) (name text : String) :
    (a.insert name (.string text)).text? name = some text := by
  rw [text?, get?_insert_self]
  rfl

theorem text?_insert_of_ne (a : Attributes) {name other : String}
    (h : Text.lower other ≠ Text.lower name) (value : Value) :
    (a.insert name value).text? other = a.text? other := by
  rw [text?, get?_insert_of_ne a h, text?]

theorem text?_erase_self (a : Attributes) (name : String) : (a.erase name).text? name = none := by
  rw [text?, get?_erase_self]
  rfl

theorem text?_erase_of_ne (a : Attributes) {name other : String}
    (h : Text.lower other ≠ Text.lower name) : (a.erase name).text? other = a.text? other := by
  rw [text?, get?_erase_of_ne a h, text?]

/-- Letter case does not matter to a look-up. -/
theorem text?_congr (a : Attributes) {name other : String}
    (h : Text.lower name = Text.lower other) : a.text? name = a.text? other := by
  rw [text?, text?, get?, get?, h]

/-- After one attribute has been removed, all the others are there in their order. -/
theorem entries_erase (a : Attributes) (name : String) :
    (a.erase name).entries = a.entries.filter (·.1 ≠ Text.lower name) :=
  Members.take_snd _ a.table.nodup

/-- After one attribute has been set, all the others are there in their order. -/
theorem filter_entries_insert (a : Attributes) (name : String) (value : Value) :
    (a.insert name value).entries.filter (·.1 ≠ Text.lower name) =
      a.entries.filter (·.1 ≠ Text.lower name) :=
  Members.filter_replace ..

/-- The attributes behind a prefix are those whose names begin with it, in their order. -/
theorem map_afterPrefix (a : Attributes) (start : String) :
    (a.afterPrefix start).map (fun (rest, value) => (start ++ rest, value)) =
      a.entries.filter fun entry => start.toList <+: entry.1.toList := by
  rw [afterPrefix, List.map_filterMap, ← List.filterMap_eq_filter]
  refine List.filterMap_congr fun (name, value) _ => ?_
  show ((Text.afterPrefix? start name).map fun rest => (rest, value)).map _ = _
  -- An attribute is behind the prefix or not, and the two sides agree on each.
  cases hrest : Text.afterPrefix? start name with
  | some rest =>
    obtain rfl := Text.afterPrefix?_eq_some_iff.mp hrest
    simp
  | none =>
    have hno : ¬ start.toList <+: name.toList := by
      rintro ⟨rest, happend⟩
      have hname : name = start ++ String.ofList rest := by
        rw [← String.toList_inj, String.toList_append, String.toList_ofList, happend]
      rw [Text.afterPrefix?_eq_some_iff.mpr hname] at hrest
      contradiction
    simp [Option.guard, hno]

/-- Attributes whose names are new and in lower case are set behind the others, in their order. -/
theorem entries_foldl_insert (a : Attributes) {later : List (String × Value)}
    (hlower : ∀ name ∈ Members.names later, Text.lower name = name)
    (hnodup : (Members.names (a.entries ++ later)).Nodup) :
    (later.foldl (fun a entry => a.insert entry.1 entry.2) a).entries = a.entries ++ later := by
  induction later generalizing a with
  | nil => exact (List.append_nil _).symm
  | cons entry rest ih =>
    obtain ⟨name, value⟩ := entry
    have hname : Text.lower name = name := hlower name List.mem_cons_self
    -- Induction on the new entries: none of their names is among those that are there.
    have hnew : name ∉ Members.names a.entries := by
      intro hmem
      rw [Members.names, List.map_append, List.nodup_append] at hnodup
      exact hnodup.2.2 name hmem name List.mem_cons_self rfl
    have hinsert : (a.insert name value).entries = a.entries ++ [(name, value)] := by
      show (Members.replace (Text.lower name) value a.entries).2 = _
      rw [hname]
      exact Members.replace_of_not_mem value hnew
    rw [List.append_cons, ← hinsert] at hnodup ⊢
    exact ih _ (fun other hother => hlower other (List.mem_cons_of_mem _ hother)) hnodup

/-- Attributes that are set anew, one after the other, are the same attributes. -/
theorem ofList_entries (a : Attributes) : ofList a.entries = a := by
  have hentries : (ofList a.entries).entries = a.entries :=
    entries_foldl_insert empty a.lower_names a.table.nodup
  exact ext (Ordered.ext hentries)

end Attributes

end TableMarkup
