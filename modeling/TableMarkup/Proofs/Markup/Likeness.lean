import Mathlib.Data.List.Forall2
import TableMarkup.Proofs.Markup.AttributeLaws
import TableMarkup.Proofs.Markup.Places

/-!
# Documents that are written differently

A document may be written in capitals or in small letters, and with the attributes of an element in
one order or another. Two such documents have the same shape, and at each place one element on either
side; how the two elements are alike is a relation between their opening tags.

* `Opening` is an opening tag as it is written; `Opening.SameLetters` and `Opening.Reordered` are the
  ways in which two of them are alike.
* `Element.Like` extends such a relation to trees.
* `Attributes.ofList_eq_of_lowered`, `Attributes.perm_entries_ofList`: the attributes that come of
  opening tags that are alike.
* `Like.headerCells`, `Like.located`: the header cells and the places of documents that are alike.
* `Selector.paths_eq_of_like`: what is picked stands at the same places.
-/

namespace TableMarkup

/-- An opening tag as it is written. A name may be there more than once, also in another letter
case; the value that comes last counts. -/
structure Opening where
  tag : String
  attributes : List (String × Value)

namespace Opening

/-- The attributes with their names in lower case. -/
def lowered (o : Opening) : List (String × Value) :=
  o.attributes.map fun entry => (Text.lower entry.1, entry.2)

/-- The same up to the case of ASCII letters in the tag and in the names of the attributes. -/
structure SameLetters (o o' : Opening) : Prop where
  tag : Text.SameLetters o.tag o'.tag
  attributes : o.lowered = o'.lowered

/-- The same up to the order of the attributes, where no two names have the same letters. -/
structure Reordered (o o' : Opening) : Prop where
  tag : o.tag = o'.tag
  attributes : o.attributes = o'.attributes ∨
    o.attributes.Perm o'.attributes ∧ (Members.names o.lowered).Nodup

/-- Where only the order of attributes differs, the tags are the same. -/
theorem Reordered.sameTag {o o' : Opening} (h : Reordered o o') :
    Text.SameLetters o.tag o'.tag := by
  rw [h.tag]
  exact rfl

end Opening

/-- Trees of one shape, with opening tags that are alike. -/
inductive Element.Like (R : Opening → Opening → Prop) : Element → Element → Prop where
  | mk {o o' : Opening} {children children' : List Element} (h : R o o')
      (hchildren : List.Forall₂ (Like R) children children') :
      Like R ⟨o.tag, .ofList o.attributes, children⟩ ⟨o'.tag, .ofList o'.attributes, children'⟩

/-! ## Attributes that are set -/

namespace Attributes

theorem insert_lower (a : Attributes) (name : String) (value : Value) :
    a.insert (Text.lower name) value = a.insert name value := by
  refine ext ?_
  show a.table.insert (Text.lower (Text.lower name)) value = a.table.insert (Text.lower name) value
  rw [Text.lower_lower]

theorem ofList_lowered (o : Opening) : ofList o.lowered = ofList o.attributes := by
  simp only [ofList, Opening.lowered, List.foldl_map, insert_lower]

/-- Attributes whose names have the same letters, in the same order and with the same values, are
the same. -/
theorem ofList_eq_of_lowered {o o' : Opening} (h : o.lowered = o'.lowered) :
    ofList o.attributes = ofList o'.attributes := by
  rw [← ofList_lowered, ← ofList_lowered, h]

/-- Attributes of different names are kept in the order in which they are written. -/
theorem entries_ofList {o : Opening} (h : (Members.names o.lowered).Nodup) :
    (ofList o.attributes).entries = o.lowered := by
  -- The names in lower case are all different, so that each of them is new when it is set.
  have hlower : ∀ name ∈ Members.names o.lowered, Text.lower name = name := by
    intro name hname
    obtain ⟨entry, hentry, rfl⟩ := List.mem_map.mp hname
    obtain ⟨written, -, rfl⟩ := List.mem_map.mp hentry
    exact Text.lower_lower written.1
  rw [← ofList_lowered]
  exact entries_foldl_insert empty hlower h

/-- Attributes of opening tags that are the same up to order are the same up to order. -/
theorem perm_entries_ofList {o o' : Opening} (h : o.Reordered o') :
    (ofList o.attributes).entries.Perm (ofList o'.attributes).entries := by
  rcases h.attributes with hsame | ⟨hperm, hnodup⟩
  · rw [hsame]
  · have hlowered : o.lowered.Perm o'.lowered := hperm.map _
    have hnodup' : (Members.names o'.lowered).Nodup := (hlowered.map _).nodup_iff.mp hnodup
    rw [entries_ofList hnodup, entries_ofList hnodup']
    exact hlowered

end Attributes

/-! ## Trees that are alike -/

namespace Element

variable {R : Opening → Opening → Prop} (hR : ∀ o o', R o o' → Text.SameLetters o.tag o'.tag)
include hR

/-- Elements that are alike have the same tags. -/
theorem Like.hasTag {e e' : Element} (h : Like R e e') (tag : String) :
    e.hasTag tag = e'.hasTag tag := by
  cases h with
  | @mk o o' children children' h hchildren =>
    have hsame : Text.lower o.tag = Text.lower o'.tag := hR o o' h
    show decide (Text.lower o.tag = Text.lower tag) = decide (Text.lower o'.tag = Text.lower tag)
    rw [hsame]

/-- Among children that are alike, the same flag gathers cells that are alike. -/
theorem like_cellsAmong {es es' : List Element} (h : List.Forall₂ (Like R) es es')
    (hbelow : ∀ e ∈ es, ∀ e', Like R e e' → ∀ inHead,
      List.Forall₂ (Like R) (cellsBelow inHead e) (cellsBelow inHead e')) (inHead : Bool) :
    List.Forall₂ (Like R) (cellsAmong inHead es) (cellsAmong inHead es') := by
  induction h with
  | nil => exact .nil
  | @cons e e' es es' he hes ih =>
    -- Induction on the two rows at once: the flag for a child follows from its tag.
    have hrest := ih fun x hx => hbelow x (List.mem_cons_of_mem _ hx)
    rw [cellsAmong, cellsAmong, he.hasTag hR, he.hasTag hR]
    refine List.rel_append (List.rel_append ?_ (hbelow e List.mem_cons_self e' he _)) hrest
    split
    · exact .cons he .nil
    · exact .nil

/-- Below elements that are alike, the same flag gathers cells that are alike. -/
theorem Like.cellsBelow {e e' : Element} (h : Like R e e') (inHead : Bool) :
    List.Forall₂ (Like R) (cellsBelow inHead e) (cellsBelow inHead e') := by
  induction e using induct generalizing e' inHead with
  | h tag attributes children ih =>
    cases h with
    | mk _ hchildren =>
      rw [Element.cellsBelow, Element.cellsBelow]
      exact like_cellsAmong hR hchildren (fun x hx x' hlike inHead => ih x hx hlike inHead) inHead

/-- Elements that are alike have as many header cells, and alike in pairs. -/
theorem Like.headerCells {e e' : Element} (h : Like R e e') :
    List.Forall₂ (Like R) e.headerCells e'.headerCells :=
  h.cellsBelow hR false

omit hR in
/-- Rows of elements that are alike have elements that are alike at the same paths. -/
theorem like_locatedFrom {es es' : List Element} (h : List.Forall₂ (Like R) es es')
    (hlocated : ∀ e ∈ es, ∀ e', Like R e e' →
      List.Forall₂ (fun x y => x.1 = y.1 ∧ Like R x.2 y.2) (located e) (located e')) (i : Nat) :
    List.Forall₂ (fun x y => x.1 = y.1 ∧ Like R x.2 y.2) (locatedFrom i es)
      (locatedFrom i es') := by
  induction h generalizing i with
  | nil => exact .nil
  | @cons e e' es es' he hes ih =>
    have hrest := ih (fun x hx => hlocated x (List.mem_cons_of_mem _ hx)) (i + 1)
    rw [locatedFrom, locatedFrom]
    refine List.rel_append (List.rel_map ?_ (hlocated e List.mem_cons_self e' he)) hrest
    intro x y hxy
    exact ⟨congrArg (i :: ·) hxy.1, hxy.2⟩

omit hR in
/-- Trees that are alike have elements that are alike at the same paths. -/
theorem Like.located {e e' : Element} (h : Like R e e') :
    List.Forall₂ (fun x y => x.1 = y.1 ∧ Like R x.2 y.2) (located e) (located e') := by
  induction e using induct generalizing e' with
  | h tag attributes children ih =>
    cases h with
    | mk h hchildren =>
      rw [Element.located, Element.located]
      refine .cons ⟨rfl, .mk h hchildren⟩ ?_
      exact like_locatedFrom hchildren (fun x hx x' hlike => ih x hx hlike) 0

end Element

/-! ## What is picked -/

/-- Selectors that decide alike about elements that are alike pick the same places. -/
theorem Selector.paths_eq_of_like {s s' : Selector} {R : Opening → Opening → Prop}
    (hpicks : ∀ e e', Element.Like R e e' → s.picks e = s'.picks e') {e e' : Element}
    (h : Element.Like R e e') : s.paths e = s'.paths e' := by
  -- What is at the same place is picked on both sides or on neither.
  have hpicked : List.Forall₂ (fun x y => x.1 = y.1 ∧ Element.Like R x.2 y.2)
      (s.located e) (s'.located e') := by
    refine List.rel_filter ?_ h.located
    intro x y hxy
    show s.picks x.2 = true ↔ s'.picks y.2 = true
    rw [hpicks x.2 y.2 hxy.2]
  have hpaths : List.Forall₂ Eq (s.paths e) (s'.paths e') :=
    List.rel_map (fun x y hxy => hxy.1) hpicked
  rwa [List.forall₂_eq_eq_eq] at hpaths

end TableMarkup
