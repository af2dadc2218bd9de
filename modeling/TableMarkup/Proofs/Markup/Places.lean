import TableMarkup.Markup.Selector

/-!
# Places in a document

An element of a document is known by its path of child positions. Document order lists an element
before everything in it, so a path never comes after a path that leads through it.

* `Element.located` lists a tree in document order, each element with its path; `mem_located` says
  that these are the elements that paths lead to, and `pairwise_located` states the order.
* `Element.wearing` gives every element attributes of its own and leaves the shape of the tree;
  `at?_wearing` is the element at a path afterwards.
* `at?_update_of_not_prefix`: a change of attributes is not seen at a path that the changed element
  does not lie on or below.
* `Selector.located` are the elements that a selector picks, with their paths, and
  `Selector.locatedBelow` those of them that stand at a path or below it.
-/

namespace TableMarkup

namespace Element

/-- Induction over the elements of a tree. -/
theorem induct {P : Element → Prop}
    (h : ∀ tag attributes children, (∀ e ∈ children, P e) → P ⟨tag, attributes, children⟩)
    (e : Element) : P e :=
  @Element.rec P (fun es => ∀ e ∈ es, P e) h (by simp)
    (fun _ _ he hes => by simpa using ⟨he, hes⟩) e

/-! ## Elements with their paths -/

mutual
/-- The element and its descendants in document order, with their paths. -/
def located : Element → List (List Nat × Element)
  | ⟨tag, attributes, children⟩ => ([], ⟨tag, attributes, children⟩) :: locatedFrom 0 children

/-- Elements in a row and their descendants in document order, with their paths; `i` is the position
of the first element. -/
def locatedFrom (i : Nat) : List Element → List (List Nat × Element)
  | [] => []
  | e :: es => (located e).map (fun x => (i :: x.1, x.2)) ++ locatedFrom (i + 1) es
end

/-- Without their paths, the elements in a row are listed as `walkAll` lists them. -/
theorem map_snd_locatedFrom {es : List Element}
    (h : ∀ e ∈ es, (located e).map Prod.snd = walk e) (i : Nat) :
    (locatedFrom i es).map Prod.snd = walkAll es := by
  induction es generalizing i with
  | nil => rfl
  | cons e es ih =>
    rw [locatedFrom, List.map_append, List.map_map, walkAll]
    have he : (located e).map Prod.snd = walk e := h e List.mem_cons_self
    have hes := ih (fun x hx => h x (List.mem_cons_of_mem _ hx)) (i + 1)
    rw [← he, hes]
    rfl

/-- Without their paths, the elements are listed as `walk` lists them. -/
theorem map_snd_located (e : Element) : (located e).map Prod.snd = walk e := by
  induction e using induct with
  | h tag attributes children ih =>
    rw [located, walk, List.map_cons, map_snd_locatedFrom ih]

/-- In a row the path begins with the position of an element, counted from the first one. -/
theorem mem_locatedFrom {es : List Element}
    (h : ∀ e ∈ es, ∀ p x, (p, x) ∈ located e ↔ e.at? p = some x) (i : Nat) (p : List Nat)
    (x : Element) :
    (p, x) ∈ locatedFrom i es ↔ ∃ k q, p = (i + k) :: q ∧ (es[k]?).bind (·.at? q) = some x := by
  induction es generalizing i with
  | nil => simp [locatedFrom]
  | cons e es ih =>
    have he := h e List.mem_cons_self
    have hes := ih (fun y hy => h y (List.mem_cons_of_mem _ hy)) (i + 1)
    rw [locatedFrom, List.mem_append, hes]
    constructor
    · rintro (hmem | ⟨k, q, rfl, hq⟩)
      · obtain ⟨⟨q, y⟩, hy, heq⟩ := List.mem_map.mp hmem
        cases heq
        exact ⟨0, q, rfl, (he q y).mp hy⟩
      -- A later element is further on by one, seen from the first.
      · exact ⟨k + 1, q, by rw [Nat.add_right_comm, Nat.add_assoc], hq⟩
    · rintro ⟨k, q, rfl, hq⟩
      -- The first element of the row, or a later one seen from the second.
      cases k with
      | zero => exact .inl (List.mem_map.mpr ⟨(q, x), (he q x).mpr hq, rfl⟩)
      | succ k => exact .inr ⟨k, q, by rw [Nat.add_right_comm, Nat.add_assoc], hq⟩

/-- The paths lead to the elements beside them, and every path that leads somewhere is there. -/
theorem mem_located {e x : Element} {p : List Nat} : (p, x) ∈ located e ↔ e.at? p = some x := by
  induction e using induct generalizing p x with
  | h tag attributes children ih =>
    rw [located, List.mem_cons, mem_locatedFrom (fun e he p x => ih e he)]
    cases p with
    | nil => simp [at?, eq_comm]
    | cons i q =>
      constructor
      · rintro (hroot | ⟨k, q', heq, hq⟩)
        · simp at hroot
        · cases heq
          simpa [at?] using hq
      · intro hq
        exact .inr ⟨i, q, by simp, by simpa [at?] using hq⟩

/-- In a row every path begins with a position from the first one on. -/
theorem head_of_mem_locatedFrom {es : List Element} {i : Nat} {x : List Nat × Element}
    (h : x ∈ locatedFrom i es) : ∃ k q, x.1 = (i + k) :: q := by
  obtain ⟨k, q, hp, -⟩ := (mem_locatedFrom (fun _ _ _ _ => mem_located) i x.1 x.2).mp h
  exact ⟨k, q, hp⟩

/-- Elements in a row are listed by ascending paths. -/
theorem pairwise_lt_locatedFrom {es : List Element}
    (h : ∀ e ∈ es, (located e).Pairwise fun x y => x.1 < y.1) (i : Nat) :
    (locatedFrom i es).Pairwise fun x y => x.1 < y.1 := by
  induction es generalizing i with
  | nil => exact .nil
  | cons e es ih =>
    rw [locatedFrom, List.pairwise_append]
    refine ⟨?_, ih (fun y hy => h y (List.mem_cons_of_mem _ hy)) (i + 1), ?_⟩
    -- In the same child: the paths agree there, and go on by induction.
    · rw [List.pairwise_map]
      refine (h e List.mem_cons_self).imp fun hxy => ?_
      exact List.cons_lt_cons_iff.mpr (.inr ⟨rfl, hxy⟩)
    · -- Different children: the paths part at their first position.
      rintro x hx y hy
      obtain ⟨z, -, rfl⟩ := List.mem_map.mp hx
      obtain ⟨k, q, hyq⟩ := head_of_mem_locatedFrom hy
      rw [hyq]
      exact List.cons_lt_cons_iff.mpr (.inl (by omega))

/-- Elements are listed by ascending paths: what is in an earlier child comes first, and an element
comes before everything in it. -/
theorem pairwise_lt_located (e : Element) : (located e).Pairwise fun x y => x.1 < y.1 := by
  induction e using induct with
  | h tag attributes children ih =>
    rw [located, List.pairwise_cons]
    refine ⟨?_, pairwise_lt_locatedFrom ih 0⟩
    intro y hy
    obtain ⟨k, q, hyq⟩ := head_of_mem_locatedFrom hy
    rw [hyq]
    exact List.nil_lt_cons _ _

/-- No path is followed by one that it goes through. -/
theorem pairwise_located (e : Element) :
    (located e).Pairwise fun x y => ¬ y.1 <+: x.1 := by
  refine (pairwise_lt_located e).imp fun hxy hprefix => ?_
  exact List.not_lt.mpr hprefix.le hxy

/-! ## Changes at a path -/

def wear (a : Attributes) (e : Element) : Element :=
  { e with attributes := a }

/-- An element that is given the attributes it has is the same. -/
theorem wear_attributes (e : Element) : wear e.attributes e = e := by
  cases e
  rfl

/-- A path in two parts is followed in two parts. -/
theorem at?_append (e : Element) (p q : List Nat) :
    e.at? (p ++ q) = (e.at? p).bind (·.at? q) := by
  induction p generalizing e with
  | nil => rfl
  | cons i p ih =>
    rw [List.cons_append, at?, at?, Option.bind_assoc]
    simp only [ih]

/-- A change at a path in two parts is a change at the first part, of what is inside there. -/
theorem update_append (f : Element → Element) (p q : List Nat) (e : Element) :
    e.update f (p ++ q) = e.update (update f q) p := by
  induction p generalizing e with
  | nil => rfl
  | cons i p ih =>
    rw [List.cons_append, update, update]
    congr 2
    funext x
    exact ih x

/-- At the path of a change there is the changed element. -/
theorem at?_update_self (f : Element → Element) (p : List Nat) (e : Element) :
    (e.update f p).at? p = (e.at? p).map f := by
  induction p generalizing e with
  | nil => rfl
  | cons i p ih =>
    rw [update, at?, at?, List.getElem?_modify_eq]
    cases e.children[i]? with
    | none => rfl
    | some c => exact ih c

/-- Two changes at one path are one change. -/
theorem update_update (f g : Element → Element) (p : List Nat) (e : Element) :
    (e.update g p).update f p = e.update (f ∘ g) p := by
  induction p generalizing e with
  | nil => rfl
  | cons i p ih =>
    simp only [update]
    congr 1
    refine List.ext_getElem? fun k => ?_
    -- Only the child on the way changes, and there it is the same question.
    by_cases hk : i = k
    · subst hk
      simp only [List.getElem?_modify_eq]
      cases e.children[i]? with
      | none => rfl
      | some c => exact congrArg some (ih c)
    · simp only [List.getElem?_modify_ne _ _ hk]

/-- Only what the change makes of the element at the path matters. -/
theorem update_congr {f g : Element → Element} {p : List Nat} {e x : Element}
    (h : e.at? p = some x) (hfg : f x = g x) : e.update f p = e.update g p := by
  induction p generalizing e with
  | nil =>
    cases h
    exact hfg
  | cons i p ih =>
    obtain ⟨c, hc, hx⟩ := Option.bind_eq_some_iff.mp h
    simp only [update]
    congr 1
    refine List.ext_getElem? fun k => ?_
    by_cases hk : i = k
    · subst hk
      rw [List.getElem?_modify_eq, List.getElem?_modify_eq, hc]
      exact congrArg some (ih hx)
    -- Children at other positions are what they were.
    · rw [List.getElem?_modify_ne _ _ hk, List.getElem?_modify_ne _ _ hk]

theorem update_id (p : List Nat) (e : Element) : e.update id p = e := by
  induction p generalizing e with
  | nil => rfl
  | cons i p ih =>
    obtain ⟨tag, attributes, children⟩ := e
    rw [update, show update id p = id from funext ih, List.modify_id]

/-- To put an element where it stands changes nothing. -/
theorem update_of_at? {p : List Nat} {e x : Element} (h : e.at? p = some x) :
    e.update (fun _ => x) p = e := by
  have hid : e.update (fun _ => x) p = e.update id p := update_congr h rfl
  rw [hid, update_id]

/-- Attributes that change at one path are not seen from another, unless it leads to an element
around the changed one. -/
theorem at?_update_of_not_prefix {a : Attributes} {p q : List Nat} (h : ¬ p <+: q) (e : Element) :
    (e.update (wear a) q).at? p = e.at? p := by
  induction q generalizing e p with
  | nil =>
    cases p with
    | nil => exact absurd List.nil_prefix h
    | cons i p => rfl
  | cons j q ih =>
    cases p with
    | nil => exact absurd List.nil_prefix h
    | cons i p =>
      rw [update, at?, at?]
      by_cases hij : j = i
      -- In the same child the question is the same; the other children have not changed.
      · subst hij
        have hpq : ¬ p <+: q := fun hpq => h (by simpa using hpq)
        rw [List.getElem?_modify_eq]
        cases e.children[j]? with
        | none => rfl
        | some c => exact ih hpq c
      · rw [List.getElem?_modify_ne _ _ hij]

/-! ## What an element is by itself -/

/-- The tag and the attributes of the element at a path. -/
def label? (e : Element) (p : List Nat) : Option (String × Attributes) :=
  (e.at? p).map fun x => (x.tag, x.attributes)

theorem label?_of_at? {e x : Element} {p : List Nat} (h : e.at? p = some x) :
    e.label? p = some (x.tag, x.attributes) := by
  rw [label?, h, Option.map_some]

theorem label?_update_self (a : Attributes) (p : List Nat) (e : Element) :
    (e.update (wear a) p).label? p = (e.label? p).map fun x => (x.1, a) := by
  rw [label?, label?, at?_update_self, Option.map_map, Option.map_map]
  rfl

/-- New attributes are not seen at any other path, not even around the element. -/
theorem label?_update_of_ne {p q : List Nat} (h : p ≠ q) (a : Attributes) (e : Element) :
    (e.update (wear a) q).label? p = e.label? p := by
  by_cases hpq : p <+: q
  · -- The element at `p` is around the changed one: something below it changes.
    obtain ⟨s, rfl⟩ := hpq
    cases s with
    | nil => simp at h
    | cons i s =>
      rw [label?, label?, update_append, at?_update_self, Option.map_map]
      rfl
  · rw [label?, label?, at?_update_of_not_prefix hpq]

/-- A tree is known by the tags and attributes at its paths. -/
theorem eq_of_label? {e e' : Element} (h : ∀ p, e.label? p = e'.label? p) : e = e' := by
  induction e using induct generalizing e' with
  | h tag attributes children ih =>
    obtain ⟨tag', attributes', children'⟩ := e'
    -- Induction on the tree: at the root the labels are the tags and attributes themselves.
    have hroot := h []
    simp only [label?, at?, Option.map_some, Option.some.injEq, Prod.mk.injEq] at hroot
    obtain ⟨rfl, rfl⟩ := hroot
    congr 1
    refine List.ext_getElem? fun i => ?_
    have hchild : ∀ q, ((children[i]?).bind (·.at? q)).map (fun x => (x.tag, x.attributes)) =
        ((children'[i]?).bind (·.at? q)).map (fun x => (x.tag, x.attributes)) :=
      fun q => h (i :: q)
    -- A child is there on both sides or on neither, because its own label is.
    cases hc : children[i]? with
    | none =>
      cases hc' : children'[i]? with
      | none => rfl
      | some c' =>
        have := hchild []
        simp [hc, hc', at?] at this
    | some c =>
      cases hc' : children'[i]? with
      | none =>
        have := hchild []
        simp [hc, hc', at?] at this
      | some c' =>
        refine congrArg some (ih c (List.mem_of_getElem? hc) fun q => ?_)
        simpa [hc, hc', label?] using hchild q

/-! ## Attributes for every element -/

mutual
/-- The tree with the attributes that `f` has for each element and its path. -/
def wearing : (List Nat → Element → Attributes) → Element → Element
  | f, ⟨tag, attributes, children⟩ =>
    ⟨tag, f [] ⟨tag, attributes, children⟩, wearingFrom f 0 children⟩

/-- Elements in a row with the attributes that `f` has for them; `i` is the position of the first. -/
def wearingFrom : (List Nat → Element → Attributes) → Nat → List Element → List Element
  | _, _, [] => []
  | f, i, e :: es => wearing (fun p => f (i :: p)) e :: wearingFrom f (i + 1) es
end

/-- The children of a row wear what they get at their positions. -/
theorem getElem?_wearingFrom (f : List Nat → Element → Attributes) (i : Nat) (es : List Element)
    (k : Nat) :
    (wearingFrom f i es)[k]? = (es[k]?).map (wearing fun p => f ((i + k) :: p)) := by
  induction es generalizing i k with
  | nil => simp [wearingFrom]
  | cons e es ih =>
    -- Induction on the row, for any position that it begins at.
    cases k with
    | zero => rfl
    | succ k =>
      rw [wearingFrom, List.getElem?_cons_succ, ih, List.getElem?_cons_succ,
        show i + 1 + k = i + (k + 1) by omega]

/-- The element at a path afterwards: the same one, with everything in it changed likewise. -/
theorem at?_wearing (f : List Nat → Element → Attributes) (e : Element) (p : List Nat) :
    (wearing f e).at? p = (e.at? p).map (wearing fun q => f (p ++ q)) := by
  induction p generalizing e f with
  | nil => rfl
  | cons i p ih =>
    obtain ⟨tag, attributes, children⟩ := e
    rw [wearing, at?, at?, getElem?_wearingFrom, Nat.zero_add]
    cases children[i]? with
    | none => rfl
    | some c => exact ih _ c

/-- At every path there is the tag from before, and what `f` has for this place. -/
theorem label?_wearing (f : List Nat → Element → Attributes) (e : Element) (p : List Nat) :
    (wearing f e).label? p = (e.at? p).map fun x => (x.tag, f p x) := by
  rw [label?, at?_wearing, Option.map_map]
  congr 1
  funext ⟨tag, attributes, children⟩
  simp [wearing]

end Element

/-! ## What a selector picks -/

/-- The elements of a tree that are picked, in document order, with their paths. -/
def Selector.located (s : Selector) (root : Element) : List (List Nat × Element) :=
  root.located.filter fun x => s.picks x.2

theorem Selector.map_snd_located (s : Selector) (root : Element) :
    (s.located root).map Prod.snd = s.find root := by
  rw [Selector.located, Selector.find, ← Element.map_snd_located, List.filter_map]
  rfl

/-- What is picked are the elements at some path that the selector picks. -/
theorem Selector.mem_located {s : Selector} {root e : Element} {p : List Nat} :
    (p, e) ∈ s.located root ↔ root.at? p = some e ∧ s.picks e := by
  rw [Selector.located, List.mem_filter, Element.mem_located]

theorem Selector.pairwise_located (s : Selector) (root : Element) :
    (s.located root).Pairwise fun x y => ¬ y.1 <+: x.1 :=
  (Element.pairwise_located root).filter _

/-- The paths of the elements that a selector picks, in document order. -/
def Selector.paths (s : Selector) (root : Element) : List (List Nat) :=
  (s.located root).map Prod.fst

/-- A path is picked if the element there is. -/
theorem Selector.mem_paths {s : Selector} {root : Element} {p : List Nat} :
    p ∈ s.paths root ↔ ∃ e, root.at? p = some e ∧ s.picks e := by
  rw [Selector.paths, List.mem_map]
  constructor
  · rintro ⟨⟨q, e⟩, hmem, rfl⟩
    exact ⟨e, mem_located.mp hmem⟩
  · rintro ⟨e, he⟩
    exact ⟨(p, e), mem_located.mpr he, rfl⟩

/-- Whether an element is picked is told by its tag and its attributes. -/
theorem Selector.mem_paths_of_label? {s : Selector} {root : Element} {p : List Nat} {tag : String}
    {a : Attributes} (h : root.label? p = some (tag, a)) :
    p ∈ s.paths root ↔ s.picks ⟨tag, a, []⟩ := by
  obtain ⟨e, he, hlabel⟩ := Option.map_eq_some_iff.mp h
  obtain ⟨rfl, rfl⟩ := Prod.mk.injEq .. ▸ hlabel
  rw [mem_paths, he]
  constructor
  · rintro ⟨x, hx, hpicks⟩
    cases hx
    exact hpicks
  · intro hpicks
    exact ⟨e, rfl, hpicks⟩

/-- A path at which two trees have the same label is picked in both of them or in neither. -/
theorem Selector.mem_paths_congr {s : Selector} {root root' : Element} {p : List Nat}
    (h : root.label? p = root'.label? p) : p ∈ s.paths root ↔ p ∈ s.paths root' := by
  cases hlabel : root'.label? p with
  | some x =>
    rw [hlabel] at h
    rw [mem_paths_of_label? h, mem_paths_of_label? hlabel]
  -- A path that leads nowhere is not picked in either of them.
  | none =>
    rw [hlabel] at h
    rw [Element.label?, Option.map_eq_none_iff] at h hlabel
    rw [mem_paths, mem_paths, h, hlabel]

/-- The elements that a selector picks at a path and below it, in document order, with the paths
that they have in the whole document. -/
def Selector.locatedBelow (s : Selector) (document : Element) (path : List Nat) :
    List (List Nat × Element) :=
  match document.at? path with
  | none => []
  | some e => (s.located e).map fun x => (path ++ x.1, x.2)

/-- Below a path there are the picked elements of what stands there, with the path in front of
theirs. -/
theorem Selector.locatedBelow_of_at? (s : Selector) {document e : Element} {path : List Nat}
    (h : document.at? path = some e) :
    s.locatedBelow document path = (s.located e).map fun x => (path ++ x.1, x.2) := by
  rw [locatedBelow, h]

/-- Without their paths they are what the selector finds in the element at the path. -/
theorem Selector.map_snd_locatedBelow (s : Selector) {document e : Element} {path : List Nat}
    (h : document.at? path = some e) : (s.locatedBelow document path).map Prod.snd = s.find e := by
  rw [s.locatedBelow_of_at? h, List.map_map, ← s.map_snd_located]
  rfl

/-- What is picked below a path is what is picked in the document, at the paths that go through this
one. -/
theorem Selector.mem_locatedBelow {s : Selector} {document e : Element} {path p : List Nat} :
    (p, e) ∈ s.locatedBelow document path ↔ (p, e) ∈ s.located document ∧ path <+: p := by
  rw [mem_located]
  cases h : document.at? path with
  -- A path that leads nowhere has nothing below it.
  | none =>
    rw [locatedBelow, h]
    constructor
    · intro hmem
      contradiction
    · rintro ⟨⟨he, -⟩, q, rfl⟩
      rw [Element.at?_append, h, Option.bind_none] at he
      contradiction
  | some x =>
    rw [s.locatedBelow_of_at? h, List.mem_map]
    constructor
    · rintro ⟨⟨q, y⟩, hmem, heq⟩
      cases heq
      rw [Element.at?_append, h, Option.bind_some]
      exact ⟨mem_located.mp hmem, List.prefix_append path q⟩
    · rintro ⟨hat, q, rfl⟩
      rw [Element.at?_append, h, Option.bind_some] at hat
      exact ⟨(q, e), mem_located.mpr hat, rfl⟩

/-- What is picked below a path comes in document order too. -/
theorem Selector.pairwise_locatedBelow (s : Selector) (document : Element) (path : List Nat) :
    (s.locatedBelow document path).Pairwise fun x y => ¬ y.1 <+: x.1 := by
  cases h : document.at? path with
  | none =>
    rw [locatedBelow, h]
    exact .nil
  | some e =>
    rw [s.locatedBelow_of_at? h, List.pairwise_map]
    exact (s.pairwise_located e).imp fun hxy => by rwa [List.prefix_append_right_inj]

/-- The paths of the elements that a selector picks among elements in a row and below them; `i` is
the position of the first. -/
def Selector.pathsFrom (s : Selector) (i : Nat) (es : List Element) : List (List Nat) :=
  ((Element.locatedFrom i es).filter fun x => s.picks x.2).map Prod.fst

/-- The paths by the recursion on the tree: the element itself first, and then its children. -/
theorem Selector.paths_mk (s : Selector) (tag : String) (a : Attributes)
    (children : List Element) :
    s.paths ⟨tag, a, children⟩ =
      (if s.picks ⟨tag, a, children⟩ then [[]] else []) ++ s.pathsFrom 0 children := by
  rw [Selector.paths, Selector.located, Element.located, List.filter_cons, Selector.pathsFrom]
  split <;> rfl

/-- The paths in a row: those of the first element, and then the others. -/
theorem Selector.pathsFrom_cons (s : Selector) (i : Nat) (e : Element) (es : List Element) :
    s.pathsFrom i (e :: es) = (s.paths e).map (i :: ·) ++ s.pathsFrom (i + 1) es := by
  simp only [Selector.pathsFrom, Selector.paths, Selector.located, Element.locatedFrom,
    List.filter_append, List.filter_map, List.map_append, List.map_map]
  rfl

end TableMarkup
