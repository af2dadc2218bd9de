import TableMarkup.Proofs.Markup.Places

/-!
# Header cells

The header cells of an element are gathered in one pass over what is inside it, with a flag that is
raised on entering a `thead` and holds for everything in there, but not for what comes after. Whether
a `th` is gathered is told by its place: the way from the element down to it leads through a `thead`.
The element itself does not count, and neither does what stands around it.

* `Element.meets`, `Element.meets_iff`: a tag that is met on the way to a path.
* `Element.cellsBelow_eq`: the pass with its flag picks places out of those below an element.
* `Element.headerPlaces` are the places of the header cells, and `Element.headerCells_exact` says
  which these are.
-/

namespace TableMarkup

namespace Element

/-! ## Tags on the way to a path -/

/-- Whether the way to a path leads through an element with the tag, or ends at one. The root, where
it sets out, does not count. -/
def meets (tag : String) : Element → List Nat → Bool
  | _, [] => false
  | e, i :: p => (e.children[i]?).any fun c => c.hasTag tag || c.meets tag p

/-- The way to a path leads through the child first. -/
theorem meets_of_getElem? {e c : Element} {i : Nat} (h : e.children[i]? = some c) (tag : String)
    (p : List Nat) : e.meets tag (i :: p) = (c.hasTag tag || c.meets tag p) := by
  rw [meets, h, Option.any_some]

/-- A tag is met if an element of this tag lies on the way, the root left out. -/
theorem meets_iff {tag : String} {e : Element} {p : List Nat} :
    e.meets tag p ↔ ∃ q c, q ≠ [] ∧ q <+: p ∧ e.at? q = some c ∧ c.hasTag tag := by
  induction p generalizing e with
  | nil =>
    refine iff_of_false nofun ?_
    rintro ⟨q, c, hne, hprefix, -⟩
    exact hne (List.prefix_nil.mp hprefix)
  -- Induction on the path. If there is no such child, no element lies on the way at all.
  | cons i p ih =>
    cases hchild : e.children[i]? with
    | none =>
      refine iff_of_false (by simp [meets, hchild]) ?_
      rintro ⟨q, c, hne, hprefix, hat, -⟩
      obtain ⟨q, rfl, -⟩ := (List.prefix_cons_iff.mp hprefix).resolve_left hne
      rw [at?, hchild, Option.bind_none] at hat
      contradiction
    | some child =>
      have hat (q : List Nat) : e.at? (i :: q) = child.at? q := by
        rw [at?, hchild, Option.bind_some]
      rw [meets_of_getElem? hchild, Bool.or_eq_true, ih]
      constructor
      · rintro (htag | ⟨q, c, -, hprefix, hq, htag⟩)
        · exact ⟨[i], child, by simp, by simp, hat [], htag⟩
        · exact ⟨i :: q, c, by simp, List.cons_prefix_cons.mpr ⟨rfl, hprefix⟩,
            (hat q).trans hq, htag⟩
      · rintro ⟨q, c, hne, hprefix, hq, htag⟩
        obtain ⟨q, rfl, hbelow⟩ := (List.prefix_cons_iff.mp hprefix).resolve_left hne
        rw [hat] at hq
        -- The way ends at the child itself, or goes on inside it.
        cases q with
        | nil =>
          obtain rfl := Option.some.inj hq
          exact .inl htag
        | cons j q => exact .inr ⟨j :: q, c, by simp, hbelow, hq, htag⟩

/-! ## The pass with its flag -/

/-- Whether a place inside an element is a header cell, where `inHead` says whether the element
stands in the head of a table. -/
def isCell (inHead : Bool) (e : Element) (x : List Nat × Element) : Bool :=
  x.2.hasTag "th" && (inHead || e.meets "thead" x.1)

/-- The places inside an element that are header cells, in document order. -/
def cellPlaces (inHead : Bool) (e : Element) : List (List Nat × Element) :=
  (locatedFrom 0 e.children).filter (isCell inHead e)

theorem located_eq (e : Element) : e.located = ([], e) :: locatedFrom 0 e.children := by
  cases e
  rw [located]

/-- The cells at a child and below it: the flag that is handed on is raised for this child alone. -/
theorem cells_child {e c : Element} {i : Nat} (hchild : e.children[i]? = some c) (inHead : Bool)
    (hbelow : ∀ inHead, cellsBelow inHead c = (cellPlaces inHead c).map Prod.snd) :
    (if (inHead || c.hasTag "thead") && c.hasTag "th" then [c] else []) ++
        cellsBelow (inHead || c.hasTag "thead") c =
      ((c.located.map fun x => (i :: x.1, x.2)).filter (isCell inHead e)).map Prod.snd := by
  -- Seen from above the child, the flag is raised by the child itself or by what is inside.
  have hplace (x : List Nat × Element) :
      isCell inHead e (i :: x.1, x.2) = isCell (inHead || c.hasTag "thead") c x := by
    rw [isCell, isCell, meets_of_getElem? hchild, Bool.or_assoc]
  rw [hbelow, cellPlaces, located_eq, List.filter_map, List.map_map]
  simp only [Function.comp_def, hplace, List.filter_cons]
  rw [isCell, meets, Bool.or_false, Bool.and_comm]
  split <;> rfl

/-- The cells among children in a row, of which the first is the child at position `i`. -/
theorem cellsAmong_eq {e : Element} {es : List Element} {i : Nat}
    (hrow : ∀ k, es[k]? = e.children[i + k]?)
    (hbelow : ∀ c ∈ es, ∀ inHead, cellsBelow inHead c = (cellPlaces inHead c).map Prod.snd)
    (inHead : Bool) :
    cellsAmong inHead es = ((locatedFrom i es).filter (isCell inHead e)).map Prod.snd := by
  induction es generalizing i with
  | nil => rfl
  | cons c cs ih =>
    have hchild : e.children[i]? = some c := (hrow 0).symm
    have hrest : ∀ k, cs[k]? = e.children[i + 1 + k]? := by
      intro k
      rw [Nat.add_right_comm, Nat.add_assoc]
      exact hrow (k + 1)
    rw [cellsAmong, locatedFrom, List.filter_append, List.map_append,
      ← cells_child hchild inHead (hbelow c List.mem_cons_self),
      ← ih hrest fun x hx => hbelow x (List.mem_cons_of_mem _ hx)]

/-- What the pass gathers below an element stands at the places of header cells. -/
theorem cellsBelow_eq (e : Element) (inHead : Bool) :
    cellsBelow inHead e = (cellPlaces inHead e).map Prod.snd := by
  induction e using induct generalizing inHead with
  | h tag attributes children ih =>
    rw [cellsBelow]
    exact cellsAmong_eq (fun k => by rw [Nat.zero_add]) ih inHead

/-! ## The places of header cells -/

/-- The header cells of an element in document order, with their paths. -/
def headerPlaces (e : Element) : List (List Nat × Element) :=
  cellPlaces false e

theorem map_snd_headerPlaces (e : Element) : e.headerPlaces.map Prod.snd = e.headerCells := by
  rw [headerPlaces, headerCells, cellsBelow_eq]

/-- Header cells may as well be looked for among all places, because the element is none itself. -/
theorem headerPlaces_eq_filter (e : Element) :
    e.headerPlaces = e.located.filter (isCell false e) := by
  have hroot : ¬ isCell false e ([], e) := by simp [isCell, meets]
  rw [headerPlaces, cellPlaces, located_eq, List.filter_cons_of_neg hroot]

theorem not_hasTag_of_ne {e : Element} {tag other : String} (h : ¬ Text.SameLetters tag other)
    (htag : e.hasTag tag) : ¬ e.hasTag other := by
  intro hother
  have hsame : Text.lower e.tag = Text.lower tag := of_decide_eq_true htag
  have hsame' : Text.lower e.tag = Text.lower other := of_decide_eq_true hother
  exact h (hsame.symm.trans hsame')

/-- A header cell is a `th` on the way to which, before its end, a `thead` is met. -/
theorem mem_headerPlaces {root e : Element} {p : List Nat} :
    (p, e) ∈ root.headerPlaces ↔ root.at? p = some e ∧ e.hasTag "th" ∧
      ∃ q head, q ≠ [] ∧ q <+: p ∧ q ≠ p ∧ root.at? q = some head ∧ head.hasTag "thead" := by
  rw [headerPlaces_eq_filter, List.mem_filter, mem_located, isCell, Bool.false_or, Bool.and_eq_true,
    meets_iff]
  refine and_congr_right fun hat => and_congr_right fun hcell => ?_
  constructor
  · rintro ⟨q, head, hne, hprefix, hq, hhead⟩
    refine ⟨q, head, hne, hprefix, ?_, hq, hhead⟩
    -- The cell is not the head, because an element has one tag.
    rintro rfl
    obtain rfl := Option.some.inj (hat.symm.trans hq)
    exact not_hasTag_of_ne (by decide) hcell hhead
  · rintro ⟨q, head, hne, hprefix, -, hq, hhead⟩
    exact ⟨q, head, hne, hprefix, hq, hhead⟩

/-- The header cells of an element are those of the elements inside it, in document order and each as
often as it has a place, that are a `th` and have around them a `thead` that is inside the element
too. -/
theorem headerCells_exact (root : Element) :
    root.located.map Prod.snd = root.walk ∧
    (root.located.map Prod.fst).Pairwise (· < ·) ∧
    (∀ p e, (p, e) ∈ root.located ↔ root.at? p = some e) ∧
    ∃ places : List (List Nat × Element), places.Sublist root.located ∧
      places.map Prod.snd = root.headerCells ∧
      ∀ p e, (p, e) ∈ places ↔ root.at? p = some e ∧ e.hasTag "th" ∧
        ∃ q head, q ≠ [] ∧ q <+: p ∧ q ≠ p ∧ root.at? q = some head ∧ head.hasTag "thead" := by
  refine ⟨map_snd_located root, ?_, fun p e => mem_located, root.headerPlaces, ?_,
    map_snd_headerPlaces root, fun p e => mem_headerPlaces⟩
  · rw [List.pairwise_map]
    exact pairwise_lt_located root
  · rw [headerPlaces_eq_filter]
    exact List.filter_sublist

/-- The cells of two heads, one of them in a table inside; a `th` that stands beside them is none. -/
example :
    let cell : Element := .ofTag "th"
    let heads : Element := ⟨"table", .empty,
      [⟨"thead", .empty, [⟨"tr", .empty, [cell, cell]⟩]⟩, cell,
        ⟨"table", .empty, [⟨"THEAD", .empty, [.ofTag "TH"]⟩, ⟨"tbody", .empty, [cell]⟩]⟩]⟩
    heads.headerPlaces.map Prod.fst = [[0, 0, 0], [0, 0, 1], [2, 0, 0]] := by
  decide

end Element

end TableMarkup
