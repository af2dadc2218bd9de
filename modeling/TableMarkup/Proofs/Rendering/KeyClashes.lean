import TableMarkup.Proofs.Rendering.Grants
import TableMarkup.Proofs.Rendering.History

/-!
# Whether two elements get one key

Keys that a page brings along share one name space with the keys that are made up in a session. Two
made-up keys are never in each other's way, and on a page whose names are distinct neither are two
keys that it brings along. What is left is a made-up key that some other element brought along.

* `Clash`: a made-up key is the key that another element had from the start.
* `Ledger`: what holds after any number of hand-overs; `Ledger.step` is one more key.
* `Ledger.shared_iff`, `Ledger.owner`: what the ledger says about clashes and about tables.
* `Session.ledger_replay`: so the ledger holds after any hand-overs.
* `Session.run_shares_key_iff`: two elements get one key exactly where there is a clash, and without
  one every table gives way to its own element only.
-/

namespace TableMarkup

open Recording

def Element.keyNames (e : Element) : List String :=
  e.id?.toList ++ (e.attributes.text? keyAttribute).toList

/-- No two elements have one text for `id` or stamp. -/
def Element.DistinctNames (root : Element) : Prop :=
  ∀ p q e f, root.at? p = some e → root.at? q = some f → p ≠ q →
    ∀ name ∈ e.keyNames, name ∉ f.keyNames

theorem Element.distinctNames_iff {root : Element} :
    root.DistinctNames ↔ ∀ x ∈ root.located, ∀ y ∈ root.located, x.1 ≠ y.1 →
      ∀ name ∈ x.2.keyNames, name ∉ y.2.keyNames := by
  constructor
  · intro h x hx y hy
    exact h x.1 y.1 x.2 y.2 (mem_located.mp hx) (mem_located.mp hy)
  · intro h p q e f he hf
    exact h (p, e) (mem_located.mpr he) (q, f) (mem_located.mpr hf)

instance (root : Element) : Decidable root.DistinctNames :=
  decidable_of_iff _ Element.distinctNames_iff.symm

theorem Element.mem_keyNames_of_keyOf? {e : Element} {key : String} (h : keyOf? e = some key) :
    key ∈ e.keyNames := by
  rw [keyNames, List.mem_append, Option.mem_toList, Option.mem_toList]
  rw [keyOf?] at h
  -- The key is the `id`, or else the stamp.
  cases hid : e.id? with
  | some id => exact .inl (by rw [← h, hid]; rfl)
  | none => exact .inr (by rw [← h, hid]; rfl)

/-- Where names are distinct, a key is the own key of one element. -/
theorem Element.DistinctNames.eq_of_ownKey? {root : Element} (h : root.DistinctNames)
    {p q : List Nat} {key : String} (hp : root.ownKey? p = some key)
    (hq : root.ownKey? q = some key) : p = q := by
  obtain ⟨e, he, hkey⟩ := Option.bind_eq_some_iff.mp hp
  obtain ⟨f, hf, hkey'⟩ := Option.bind_eq_some_iff.mp hq
  -- Two elements at different places would have this key among their names.
  by_contra hne
  exact h p q e f he hf hne key (mem_keyNames_of_keyOf? hkey) (mem_keyNames_of_keyOf? hkey')

/-- A key that was made up for one element is what another element had from the start. -/
def Clash (document : Element) (grants : List Grant) : Prop :=
  ∃ g ∈ grants, g.numbered = true ∧ ∃ f ∈ grants, document.ownKey? f.path = some g.key

instance (document : Element) (grants : List Grant) : Decidable (Clash document grants) :=
  inferInstanceAs (Decidable (∃ g ∈ grants, _))

theorem Clash.mono {document : Element} {grants more : List Grant} (h : Clash document grants)
    (hsub : grants ⊆ more) : Clash document more := by
  obtain ⟨g, hg, hnumbered, f, hf, hown⟩ := h
  exact ⟨g, hsub hg, hnumbered, f, hsub hf, hown⟩

/-! ## The ledger -/

/-- What a session that began with a document and an empty record has come to after giving keys. -/
structure Ledger (document : Element) (grants : List Grant) (s : Session Recording) : Prop where
  /-- An element that brought its key along has it still. -/
  kept (p : List Nat) (key : String) :
    document.ownKey? p = some key → s.document.ownKey? p = some key
  /-- An element that was given no key has what it brought along. -/
  untouched (p : List Nat) :
    (∀ g ∈ grants, g.path ≠ p) → s.document.ownKey? p = document.ownKey? p
  /-- An element that was given a key has it. -/
  given (g : Grant) : g ∈ grants → s.document.ownKey? g.path = some g.key
  /-- Keys are made up for elements that brought none along, from the number of tables. -/
  madeUp (g : Grant) : g ∈ grants → g.numbered = true →
    document.ownKey? g.path = none ∧ ∃ tag, g.key = numberedKey tag g.number
  /-- An element that brought no key along bears one that was made up for it before. -/
  origin (g : Grant) : g ∈ grants → document.ownKey? g.path = none →
    ∃ f ∈ grants, f.path = g.path ∧ f.key = g.key ∧ f.numbered = true ∧ f.number ≤ g.number
  /-- The number grows with every table that is made. -/
  number (g : Grant) : g ∈ grants →
    g.number ≤ s.renderer.created ∧ (g.accepted = true → g.number < s.renderer.created)
  /-- A table that is there was made when its key was given. -/
  live (i : Instance) : i ∈ s.renderer.instances →
    ∃ g ∈ grants, g.key = i.key ∧ g.accepted = true ∧ g.number = i.id
  /-- Where none was made, one had been made under the same key. -/
  refused (g : Grant) : g ∈ grants → g.accepted = false →
    ∃ f ∈ grants, f.accepted = true ∧ f.key = g.key ∧ f.number < g.number
  /-- Two elements have one key only where there is a clash. -/
  shared (g f : Grant) : g ∈ grants → f ∈ grants → g.path ≠ f.path → g.key = f.key →
    Clash document grants

namespace Ledger

variable {document : Element} {grants : List Grant} {s s' : Session Recording} {g : Grant}

theorem start (document : Element) (version : Option Version) :
    Ledger document [] ⟨document, fresh version⟩ where
  kept _ _ h := h
  untouched _ _ := rfl
  given _ hg := absurd hg List.not_mem_nil
  madeUp _ hg := absurd hg List.not_mem_nil
  origin _ hg := absurd hg List.not_mem_nil
  number _ hg := absurd hg List.not_mem_nil
  live _ hi := absurd hi List.not_mem_nil
  refused _ hg := absurd hg List.not_mem_nil
  shared _ _ hg := absurd hg List.not_mem_nil

/-- What an element brought along is the key that it is given. -/
theorem eq_key_of_brought (h : Ledger document grants s) (hg : g ∈ grants) {key : String}
    (hbrought : document.ownKey? g.path = some key) : key = g.key := by
  have hown := h.kept g.path key hbrought
  rw [h.given g hg, Option.some.injEq] at hown
  exact hown.symm

/-- An element that has a key and did not bring it along was given it. -/
theorem exists_of_not_brought (h : Ledger document grants s) {p : List Nat} {key : String}
    (hown : s.document.ownKey? p = some key) (hbrought : document.ownKey? p = none) :
    ∃ f ∈ grants, f.path = p ∧ f.key = key := by
  by_contra hnone
  push Not at hnone
  -- Had the element been given no key, or others only, it would have what it brought along.
  have huntouched : ∀ f ∈ grants, f.path ≠ p := by
    intro f hf hp
    have hgiven := h.given f hf
    rw [hp, hown, Option.some.injEq] at hgiven
    exact hnone f hf hp hgiven.symm
  rw [h.untouched p huntouched, hbrought] at hown
  contradiction

/-- An element that has no key brought none along. -/
theorem not_brought_of_none (h : Ledger document grants s) {p : List Nat}
    (hnone : s.document.ownKey? p = none) : document.ownKey? p = none := by
  cases hbrought : document.ownKey? p with
  | none => rfl
  | some key =>
    rw [h.kept p key hbrought] at hnone
    contradiction

/-! ## One more key -/

/-- Giving a key takes none away: an element that has one gets the same key again. -/
theorem kept_step (h : Ledger document grants s) (hg : Granting s g s') (p : List Nat)
    (key : String) (hbrought : document.ownKey? p = some key) :
    s'.document.ownKey? p = some key := by
  have hown := h.kept p key hbrought
  rw [hg.ownKey]
  -- Only the element that is given a key is changed, and it is given the one that it has.
  split
  · next hp =>
    subst hp
    obtain ⟨hsome, -⟩ | ⟨hnone, -⟩ := hg.source
    · rw [← hsome, hown]
    · rw [hown] at hnone
      contradiction
  · exact hown

/-- A key that was given before is not changed by another that is given now. -/
theorem given_step (h : Ledger document grants s) (hg : Granting s g s') (f : Grant)
    (hf : f ∈ grants ++ [g]) : s'.document.ownKey? f.path = some f.key := by
  rw [hg.ownKey]
  obtain hf | hf := List.mem_append.mp hf
  · have hown := h.given f hf
    -- The same element may be given a key again; then it is the same key.
    split
    · next hp =>
      rw [hp] at hown
      obtain ⟨hsome, -⟩ | ⟨hnone, -⟩ := hg.source
      · rw [← hsome, hown]
      · rw [hown] at hnone
        contradiction
    · exact hown
  · rw [List.mem_singleton] at hf
    rw [hf, if_pos rfl]

/-- A key is made up only where there is none by then, and so none was brought along. -/
theorem madeUp_step (h : Ledger document grants s) (hg : Granting s g s') (f : Grant)
    (hf : f ∈ grants ++ [g]) (hnumbered : f.numbered = true) :
    document.ownKey? f.path = none ∧ ∃ tag, f.key = numberedKey tag f.number := by
  obtain hf | hf := List.mem_append.mp hf
  · exact h.madeUp f hf hnumbered
  · obtain rfl := List.mem_singleton.mp hf
    -- A key that was there already is not counted as made up.
    obtain ⟨-, hnot⟩ | ⟨hnone, -, hkey⟩ := hg.source
    · rw [hnumbered] at hnot
      contradiction
    · exact ⟨h.not_brought_of_none hnone, hkey⟩

/-- An element that bears a made-up key was given it when it was made up, for no more tables than
now. -/
theorem origin_step (h : Ledger document grants s) (hg : Granting s g s') (f : Grant)
    (hf : f ∈ grants ++ [g]) (hbrought : document.ownKey? f.path = none) :
    ∃ o ∈ grants ++ [g], o.path = f.path ∧ o.key = f.key ∧ o.numbered = true ∧
      o.number ≤ f.number := by
  have hold {f : Grant} (hf : f ∈ grants) (hbrought : document.ownKey? f.path = none) :
      ∃ o ∈ grants ++ [g], o.path = f.path ∧ o.key = f.key ∧ o.numbered = true ∧
        o.number ≤ f.number := by
    obtain ⟨o, ho, horigin⟩ := h.origin f hf hbrought
    exact ⟨o, List.mem_append_left _ ho, horigin⟩
  obtain hf | hf := List.mem_append.mp hf
  · exact hold hf hbrought
  · obtain rfl := List.mem_singleton.mp hf
    -- Either the key is made up now, or it was on the element and was made up before.
    obtain ⟨hown, -⟩ | ⟨-, hnumbered, -⟩ := hg.source
    · -- The key was given before, and the number has not gone down since.
      obtain ⟨e, he, hpath, hkey⟩ := h.exists_of_not_brought hown hbrought
      obtain ⟨o, ho, hopath, hokey, honumbered, honumber⟩ := hold he (hpath ▸ hbrought)
      have hnumber := (h.number e he).1
      rw [← hg.number] at hnumber
      exact ⟨o, ho, hopath.trans hpath, hokey.trans hkey, honumbered, honumber.trans hnumber⟩
    · exact ⟨f, List.mem_append_right _ (List.mem_singleton_self f), rfl, rfl, hnumbered, le_rfl⟩

/-- The number never falls, and rises with each table made. -/
theorem number_step (h : Ledger document grants s) (hg : Granting s g s') (f : Grant)
    (hf : f ∈ grants ++ [g]) :
    f.number ≤ s'.renderer.created ∧ (f.accepted = true → f.number < s'.renderer.created) := by
  -- A table made raises the number by one, a refusal leaves it.
  have hcreated : s.renderer.created ≤ s'.renderer.created ∧
      (g.accepted = true → s.renderer.created < s'.renderer.created) := by
    obtain ⟨-, config, hrecord⟩ | ⟨hrefused, hrecord, -⟩ := hg.outcome
    · rw [hrecord, created_record]
      omega
    · rw [hrecord]
      simp [hrefused]
  obtain hf | hf := List.mem_append.mp hf
  · obtain ⟨hle, hlt⟩ := h.number f hf
    exact ⟨by omega, fun haccepted => by have := hlt haccepted; omega⟩
  · obtain rfl := List.mem_singleton.mp hf
    rw [hg.number]
    exact hcreated

/-- A table that is there stays from before or has just been made under the key given. -/
theorem live_step (h : Ledger document grants s) (hg : Granting s g s') (i : Instance)
    (hi : i ∈ s'.renderer.instances) :
    ∃ f ∈ grants ++ [g], f.key = i.key ∧ f.accepted = true ∧ f.number = i.id := by
  have hold (hi : i ∈ s.renderer.instances) :
      ∃ f ∈ grants ++ [g], f.key = i.key ∧ f.accepted = true ∧ f.number = i.id := by
    obtain ⟨f, hf, hmade⟩ := h.live i hi
    exact ⟨f, List.mem_append_left _ hf, hmade⟩
  -- A refusal leaves the tables that are there.
  obtain ⟨haccepted, config, hrecord⟩ | ⟨-, hrecord, -⟩ := hg.outcome
  · rw [hrecord, record, List.mem_append, List.mem_singleton] at hi
    obtain hi | rfl := hi
    · exact hold (List.mem_of_mem_eraseP hi)
    · exact ⟨g, List.mem_append_right _ (List.mem_singleton_self g), rfl, haccepted, hg.number⟩
  · exact hold (hrecord ▸ hi)

/-- Who is refused meets a table that is there, and so one that was made when there were fewer. -/
theorem refused_step (h : Ledger document grants s) (hg : Granting s g s') (f : Grant)
    (hf : f ∈ grants ++ [g]) (hrefused : f.accepted = false) :
    ∃ e ∈ grants ++ [g], e.accepted = true ∧ e.key = f.key ∧ e.number < f.number := by
  obtain hf | hf := List.mem_append.mp hf
  · obtain ⟨e, he, hbefore⟩ := h.refused f hf hrefused
    exact ⟨e, List.mem_append_left _ he, hbefore⟩
  · obtain rfl := List.mem_singleton.mp hf
    obtain ⟨haccepted, -⟩ | ⟨-, -, i, hi, hkey⟩ := hg.outcome
    · rw [hrefused] at haccepted
      contradiction
    -- The table in the way was made for a key given before, so its number is lower.
    · obtain ⟨e, he, hekey, heaccepted, -⟩ := h.live i hi
      have hlt := (h.number e he).2 heaccepted
      rw [← hg.number] at hlt
      exact ⟨e, List.mem_append_left _ he, heaccepted, hekey.trans hkey, hlt⟩

/-- A key that is made up tells the number of tables at which it was made up. -/
theorem number_eq (h : Ledger document grants s) (hg : g ∈ grants) (hnumbered : g.numbered = true)
    {tag : String} {n : Nat} (hkey : g.key = numberedKey tag n) : g.number = n := by
  obtain ⟨-, tag', hkey'⟩ := h.madeUp g hg hnumbered
  rw [hkey] at hkey'
  exact (numberedKey_inj hkey').2.symm

/-- A key that an element has of its own and another element bears makes a clash. -/
theorem clash_of_own (hdistinct : document.DistinctNames) (h : Ledger document grants s)
    (hown : s.document.ownKey? g.path = some g.key) {f : Grant} (hf : f ∈ grants)
    (hpath : f.path ≠ g.path) (hkey : f.key = g.key) : Clash document (grants ++ [g]) := by
  cases hbrought : document.ownKey? g.path with
  | none =>
    -- The element was given its key before, so the clash is not new.
    obtain ⟨e, he, hepath, hekey⟩ := h.exists_of_not_brought hown hbrought
    exact (h.shared e f he hf (hepath ▸ Ne.symm hpath) (hekey.trans hkey.symm)).mono
      (List.subset_append_left _ _)
  | some key =>
    have hkept := h.kept g.path key hbrought
    rw [hown, Option.some.injEq] at hkept
    subst hkept
    -- Both keys brought along would be one name at two places; so the other key was made up.
    cases hfbrought : document.ownKey? f.path with
    | some fkey =>
      have hfkey := h.eq_key_of_brought hf hfbrought
      rw [hfkey, hkey] at hfbrought
      exact absurd (hdistinct.eq_of_ownKey? hfbrought hbrought) hpath
    | none =>
      obtain ⟨o, ho, -, hokey, honumbered, -⟩ := h.origin f hf hfbrought
      exact ⟨o, List.mem_append_left _ ho, honumbered, g,
        List.mem_append_right _ (List.mem_singleton_self g), by rw [hbrought, hokey, hkey]⟩

/-- A key that is made up now and that another element bears makes a clash. Were it made up for that
element too, the element would have been refused for a table under this key, which was made when
there were fewer tables; so the key of that table is not made up. -/
theorem clash_of_madeUp (h : Ledger document grants s) (hnumbered : g.numbered = true)
    {tag : String} (hgkey : g.key = numberedKey tag s.renderer.created) {f : Grant} (hf : f ∈ grants)
    (hkey : f.key = g.key) : Clash document (grants ++ [g]) := by
  -- An element that brought this key along clashes with the key made up now.
  have hclash {e : Grant} (he : e ∈ grants) (hekey : e.key = g.key) {key : String}
      (hbrought : document.ownKey? e.path = some key) : Clash document (grants ++ [g]) := by
    refine ⟨g, List.mem_append_right _ (List.mem_singleton_self g), hnumbered, e,
      List.mem_append_left _ he, ?_⟩
    rw [hbrought, h.eq_key_of_brought he hbrought, hekey]
  cases hfbrought : document.ownKey? f.path with
  | some fkey => exact hclash hf hkey hfbrought
  | none =>
    obtain ⟨o, ho, -, hokey, honumbered, -⟩ := h.origin f hf hfbrought
    -- The other element bears the key since it was made up for it, at the same number of tables as
    -- now.
    have hosame := hokey.trans hkey
    have honumber := h.number_eq ho honumbered (hosame.trans hgkey)
    -- Had it been accepted, there would be more tables by now.
    have horefused : o.accepted = false := by
      by_contra haccepted
      have hlt := (h.number o ho).2 (by simpa using haccepted)
      omega
    obtain ⟨e, he, -, hekey, helt⟩ := h.refused o ho horefused
    have hesame := hekey.trans hosame
    cases hebrought : document.ownKey? e.path with
    | some key => exact hclash he hesame hebrought
    | none =>
      -- The key of the table in the way would be made up at the same number, yet it was there
      -- before.
      obtain ⟨x, hx, -, hxkey, hxnumbered, hxle⟩ := h.origin e he hebrought
      have hxnumber := h.number_eq hx hxnumbered ((hxkey.trans hesame).trans hgkey)
      omega

/-- A key that is given to an element while another element bears it makes a clash. -/
theorem clash_of_shared (hdistinct : document.DistinctNames) (h : Ledger document grants s)
    (hg : Granting s g s') {f : Grant} (hf : f ∈ grants) (hpath : f.path ≠ g.path)
    (hkey : f.key = g.key) : Clash document (grants ++ [g]) := by
  -- The key now given was on the element already, or it is made up for it.
  obtain ⟨hown, -⟩ | ⟨-, hnumbered, tag, hgkey⟩ := hg.source
  · exact h.clash_of_own hdistinct hown hf hpath hkey
  · rw [hg.number] at hgkey
    exact h.clash_of_madeUp hnumbered hgkey hf hkey

/-- Two elements have one key exactly where there is a clash. -/
theorem shared_iff (h : Ledger document grants s) :
    (∃ g ∈ grants, ∃ f ∈ grants, g.path ≠ f.path ∧ g.key = f.key) ↔ Clash document grants := by
  constructor
  · rintro ⟨g, hg, f, hf, hpath, hkey⟩
    exact h.shared g f hg hf hpath hkey
  · rintro ⟨g, hg, hnumbered, f, hf, hbrought⟩
    refine ⟨g, hg, f, hf, ?_, h.eq_key_of_brought hf hbrought⟩
    -- An element for which a key is made up brought none along, so it is not the other one.
    intro hpath
    rw [← hpath, (h.madeUp g hg hnumbered).1] at hbrought
    contradiction

/-- Where a key makes no clash, a table that is there under it was made for the same element. -/
theorem owner (hdistinct : document.DistinctNames) (h : Ledger document grants s)
    (hg : Granting s g s') (hclash : ¬ Clash document (grants ++ [g])) {i : Instance}
    (hi : s.renderer.instance? g.key = some i) :
    ∃ f ∈ grants, f.path = g.path ∧ f.accepted = true ∧ f.number = i.id := by
  obtain ⟨f, hf, hkey, haccepted, hnumber⟩ := h.live i (List.mem_of_find?_eq_some hi)
  have hsame : i.key = g.key := by simpa using List.find?_some hi
  refine ⟨f, hf, ?_, haccepted, hnumber⟩
  -- A table of another element under this key would make a clash.
  by_contra hpath
  exact hclash (h.clash_of_shared hdistinct hg hf hpath (hkey.trans hsame))

/-- So under a key that is made up and makes no clash there is no table. -/
theorem instance?_of_numbered (hdistinct : document.DistinctNames) (h : Ledger document grants s)
    (hg : Granting s g s') (hclash : ¬ Clash document (grants ++ [g]))
    (hnone : s.document.ownKey? g.path = none) : s.renderer.instance? g.key = none := by
  by_contra hsome
  obtain ⟨i, hi⟩ := Option.ne_none_iff_exists'.mp hsome
  obtain ⟨f, hf, hpath, -⟩ := h.owner hdistinct hg hclash hi
  -- The element was given a key before, and so it has one.
  have hown := h.given f hf
  rw [hpath, hnone] at hown
  contradiction

/-- The ledger holds after one more key. All its entries but the last follow from themselves; that
two elements share a key needs all the others. -/
theorem step (hdistinct : document.DistinctNames) (h : Ledger document grants s)
    (hg : Granting s g s') : Ledger document (grants ++ [g]) s' where
  kept := h.kept_step hg
  untouched p hp := by
    have hne : p ≠ g.path :=
      Ne.symm (hp g (List.mem_append_right _ (List.mem_singleton_self g)))
    rw [hg.ownKey, if_neg hne]
    exact h.untouched p fun f hf => hp f (List.mem_append_left _ hf)
  given := h.given_step hg
  madeUp := h.madeUp_step hg
  origin := h.origin_step hg
  number := h.number_step hg
  live := h.live_step hg
  refused := h.refused_step hg
  shared e f he hf hpath hkey := by
    rw [List.mem_append, List.mem_singleton] at he hf
    -- Of two grants at least one is the new one, unless the clash was there before.
    obtain he | rfl := he
    · obtain hf | rfl := hf
      · exact (h.shared e f he hf hpath hkey).mono (List.subset_append_left _ _)
      · exact h.clash_of_shared hdistinct hg he hpath hkey
    · obtain hf | rfl := hf
      · exact h.clash_of_shared hdistinct hg hf (Ne.symm hpath) hkey.symm
      · contradiction

end Ledger

/-! ## Runs -/

namespace Session

variable {marker : String} {document : Element}

/-- After any hand-overs the ledger holds for the keys that they gave. -/
theorem ledger_replay (hid : Text.lower marker ≠ "id") (hstamp : Text.lower marker ≠ keyAttribute)
    (hdistinct : document.DistinctNames) (version : Option Version) (hs : List HandOver) :
    Ledger document (grants marker ⟨document, fresh version⟩ hs)
      (replay Recording.renderer marker ⟨document, fresh version⟩ hs) := by
  -- From the back, since the ledger is about the session that all earlier hand-overs have led to.
  induction hs using List.reverseRecOn with
  | nil => exact Ledger.start document version
  | append_singleton hs h ih =>
    rw [grants_append, replay_append]
    generalize replay Recording.renderer marker ⟨document, fresh version⟩ hs = s at ih ⊢
    rw [replay_cons, grants, grants, List.append_nil, grant?]
    -- A path that leads nowhere gives no key and changes nothing.
    cases he : s.document.at? h.path with
    | none =>
      have hsame : s.handOver Recording.renderer marker h = s := by simp [handOver, he]
      rw [hsame, Option.map_none, Option.toList_none, List.append_nil]
      exact ih
    | some e =>
      rw [Option.map_some, Option.toList_some]
      exact ih.step hdistinct (granting hid hstamp he)

/-- In a run with the standard settings two elements are given one key exactly where a key is made up
that another element brought along. Where this does not happen, a table that is there under the key
of an element that is handed over was made for this element, and under a key that is made up there is
none. -/
theorem run_shares_key_iff {m : Type → Type} [Monad m] [LawfulMonad m] (engine : Engine m)
    (hstandard : engine.settings = .standard) (hdistinct : document.DistinctNames)
    (version : Option Version) (steps : List Step) :
    let start : Session Recording := ⟨document, fresh version⟩
    let marker := engine.settings.markerAttribute
    Prod.snd <$> run engine Recording.renderer steps start =
      start.replay Recording.renderer marker <$>
        journal engine Recording.renderer steps start ∧
    ∀ hs : List HandOver,
      ((∃ g ∈ start.grants marker hs, ∃ f ∈ start.grants marker hs,
          g.path ≠ f.path ∧ g.key = f.key) ↔ Clash document (start.grants marker hs)) ∧
      (¬ Clash document (start.grants marker hs) →
        ∀ before h later, hs = before ++ h :: later →
          let s := start.replay Recording.renderer marker before
          ∀ e, s.document.at? h.path = some e →
            (∀ i, s.renderer.instance? (s.renderer.keyFor e).1 = some i →
              ∃ g ∈ start.grants marker before,
                g.path = h.path ∧ g.accepted = true ∧ g.number = i.id) ∧
            (keyOf? e = none → s.renderer.instance? (s.renderer.keyFor e).1 = none)) := by
  intro start marker
  have hid : Text.lower marker ≠ "id" := by simp only [marker, hstandard]; decide
  have hstamp : Text.lower marker ≠ keyAttribute := by simp only [marker, hstandard]; decide
  refine ⟨run_eq_replay engine Recording.renderer steps start, fun hs => ⟨?_, ?_⟩⟩
  · exact (ledger_replay hid hstamp hdistinct version hs).shared_iff
  · intro hclash before h later hsplit s e he
    have hledger := ledger_replay hid hstamp hdistinct version before
    have hgranting := granting hid hstamp he
    -- The keys given up to this hand-over are among all keys of the run, so they do not clash.
    have hnoclash : ¬ Clash document (start.grants marker before ++ [s.grantTo h e]) := by
      refine fun hearly => hclash (hearly.mono ?_)
      rw [hsplit, grants_append, grants, grant?, he]
      simp [s]
    constructor
    · intro i hi
      exact hledger.owner hdistinct hgranting hnoclash hi
    · intro hnone
      apply hledger.instance?_of_numbered hdistinct hgranting hnoclash
      show s.document.ownKey? h.path = none
      rw [Element.ownKey?_of_at? he, hnone]

/-- A page with a table that has the `id` "table-1", and a table without one. -/
def clashingPage : Element :=
  ⟨"body", .empty,
    [⟨"table", .ofList [("id", .string "table-1"), ("data-role", .string "datatable")], []⟩,
      ⟨"table", .ofList [("data-role", .string "datatable")], []⟩]⟩

/-- On this page, handing over the second table after the first makes a clash. -/
theorem run_shares_key_iff_clashingPage :
    let engine : Engine Id := ⟨Host.ofJson .null, .standard⟩
    let grants := grants engine.settings.markerAttribute ⟨clashingPage, fresh none⟩
      [⟨[0], .start⟩, ⟨[1], .start⟩]
    engine.settings = .standard ∧ clashingPage.DistinctNames ∧
      ∃ g ∈ grants, ∃ f ∈ grants, g.path ≠ f.path ∧ g.key = f.key := by
  have hdistinct : clashingPage.DistinctNames := by decide
  refine ⟨rfl, hdistinct, ?_⟩
  exact ((run_shares_key_iff ⟨Host.ofJson .null, .standard⟩ rfl hdistinct none []).2
    [⟨[0], .start⟩, ⟨[1], .start⟩]).1.mpr (by decide +kernel)

/-- When the page is ready, both tables have one key, and the table made first is gone. -/
theorem ready_shares_key :
    let engine : Engine Id := ⟨Host.ofJson .null, .standard⟩
    let s := (run engine Recording.renderer [.ready []] ⟨clashingPage, fresh none⟩).2
    clashingPage.DistinctNames ∧
      s.document.ownKey? [0] = some "table-1" ∧ s.document.ownKey? [1] = some "table-1" ∧
      s.renderer.created = 2 ∧
      s.renderer.instances.map (fun i => (i.id, i.key)) = [(1, "table-1")] := by
  refine ⟨by decide, ?_⟩
  decide +kernel

end Session

end TableMarkup
