import Mathlib.Data.List.FinRange
import Mathlib.Data.List.Indexes
import TableMarkup.Proofs.Command.Views

/-!
# The labels of tables

The view of `config` gives every table a label: its `id`, or its position among the marked tables
where it has none. Different positions have different texts, and so one position is told from
another; but an `id` may be the text of a number, and then it reads like the position of another
table.

* `Element.labelAt` is the label of a table at a position, and `Element.labelAt_eq_iff` says when two
  tables have the same label.
* `Element.nodup_mapIdx_labelAt`: labels are distinct exactly where no two tables have the same `id`
  and no `id` is the position of a table without one.
* `Engine.labels_showTables`: the labels that the view shows.
* `Engine.labels_nodup_iff`: when the labels that the view shows are distinct.
-/

namespace TableMarkup

/-- No value is kept twice from the items of a list exactly where each value is kept from one item. -/
theorem nodup_filterMap_iff {α β : Type} {f : α → Option β} {xs : List α} :
    (xs.filterMap f).Nodup ↔
      ∀ (i j : Fin xs.length) (b : β), f xs[i] = some b → f xs[j] = some b → i = j := by
  rw [List.Nodup, List.pairwise_filterMap, List.pairwise_iff_getElem]
  constructor
  · intro h i j b hi hj
    by_contra hne
    -- Of two different positions one comes first.
    obtain hlt | hlt := lt_or_gt_of_ne hne
    · exact h i j i.isLt j.isLt hlt b hi b hj rfl
    · exact h j i j.isLt i.isLt hlt b hj b hi rfl
  · rintro h i j hi hj hlt b hib b' hjb rfl
    have hsame : i = j := congrArg Fin.val (h ⟨i, hi⟩ ⟨j, hj⟩ b hib hjb)
    omega

namespace Element

/-- The text of a position among the marked tables. -/
def positionText (position : Nat) : String :=
  String.ofList (Text.digits position)

theorem positionText_inj {i j : Nat} : positionText i = positionText j ↔ i = j := by
  constructor
  · intro h
    exact Text.digits_injective (String.ofList_injective h)
  · rintro rfl
    rfl

/-- What the table at a position is called. -/
def labelAt (position : Nat) (table : Element) : String :=
  table.id?.getD (positionText position)

/-- Two tables have the same label if they have the same `id`, if the `id` of one is the position of
the other, which has none, or if both stand at the same position. -/
theorem labelAt_eq_iff {a b : Element} {i j : Nat} :
    labelAt i a = labelAt j b ↔
      (∃ name, a.id? = some name ∧ b.id? = some name) ∨
      (a.id? = none ∧ b.id? = some (positionText i)) ∨
      (a.id? = some (positionText j) ∧ b.id? = none) ∨
      (a.id? = none ∧ b.id? = none ∧ i = j) := by
  rw [labelAt, labelAt]
  -- Four cases, by who has an `id`.
  cases a.id? with
  | none =>
    cases b.id? with
    | none => simp [positionText_inj]
    | some name => simp [eq_comm]
  | some name =>
    cases b.id? with
    | none => simp
    | some other => simp [eq_comm]

/-- The labels of tables in a row are distinct if no two of the tables have the same `id`, and none
has for its `id` the position of one that has none. -/
theorem nodup_mapIdx_labelAt {tables : List Element} :
    (tables.mapIdx labelAt).Nodup ↔
      (tables.filterMap Element.id?).Nodup ∧
      ∀ (i : Nat) (table : Element), tables[i]? = some table → table.id? = none →
        ∀ other ∈ tables, other.id? ≠ some (positionText i) := by
  rw [List.mapIdx_eq_ofFn, List.nodup_ofFn, nodup_filterMap_iff]
  constructor
  · intro hlabel
    constructor
    · intro i j name hi hj
      exact hlabel (labelAt_eq_iff.mpr (.inl ⟨name, hi, hj⟩))
    · intro i table htable hnone other hother hid
      obtain ⟨hi, rfl⟩ := List.getElem?_eq_some_iff.mp htable
      obtain ⟨j, hj, rfl⟩ := List.getElem_of_mem hother
      -- A position that reads like the `id` makes the two labels one.
      have hsame : (⟨i, hi⟩ : Fin tables.length) = ⟨j, hj⟩ :=
        hlabel (labelAt_eq_iff.mpr (.inr (.inl ⟨hnone, hid⟩)))
      -- The two tables would be one, which has an `id` and has none.
      obtain rfl : i = j := congrArg Fin.val hsame
      rw [hnone] at hid
      contradiction
  · rintro ⟨hids, hpositions⟩ i j hlabel
    have hfree (k l : Fin tables.length) (hnone : tables[k].id? = none) :
        tables[l].id? ≠ some (positionText k) :=
      hpositions k tables[k] (List.getElem?_eq_getElem k.isLt) hnone _ (List.getElem_mem l.isLt)
    -- Two labels are the same in one of four ways, and each of them is ruled out or names one
    -- position.
    obtain ⟨name, hi, hj⟩ | ⟨hi, hj⟩ | ⟨hi, hj⟩ | ⟨-, -, h⟩ := labelAt_eq_iff.mp hlabel
    · exact hids i j name hi hj
    · exact absurd hj (hfree i j hi)
    · exact absurd hi (hfree j i hj)
    · exact Fin.ext h

end Element

namespace Engine

open Element

theorem member?_toJson_table (t : TableEntry) :
    t.toJson.member? "table" = some (.string t.label) := by
  have hne : "table" ≠ "config" := by decide
  rw [TableEntry.toJson, Json.ofMembers, Json.member?, Members.ofList, List.foldl_cons,
    List.foldl_cons, List.foldl_nil, Members.get?_insert_of_ne hne, Members.get?_insert_self]

/-- The first view shows the label of each marked table, in the order of the document. -/
theorem labels_showTables (engine : Engine Id) (document : Element) :
    ∃ items, engine.showTables document = .array items ∧
      items.map (Json.member? "table") =
        ((engine.settings.selector.find document).mapIdx labelAt).map (some ∘ Json.string) := by
  refine ⟨_, rfl, ?_⟩
  rw [tables, List.mapIdx_eq_zipIdx_map, List.map_map, List.map_map, List.map_map]
  congr 1
  funext x
  exact member?_toJson_table _

/-- When the first view tells the marked tables apart by their labels: no two of them have the same
`id`, and none has for its `id` the position of one that has none. -/
theorem labels_nodup_iff (engine : Engine Id) (document : Element) :
    let found := engine.settings.selector.find document
    ∃ items, engine.showTables document = .array items ∧ items.length = found.length ∧
      ((items.map (Json.member? "table")).Nodup ↔
        (found.filterMap Element.id?).Nodup ∧
        ∀ (i : Nat) (table : Element), found[i]? = some table → table.id? = none →
          ∀ other ∈ found, other.id? ≠ some (String.ofList (Text.digits i))) := by
  intro found
  obtain ⟨items, hitems, hlabels⟩ := engine.labels_showTables document
  have hlength : items.length = found.length := by
    simpa using congrArg List.length hlabels
  -- Wrapped in JSON, labels are the same only if they were.
  have hshown : Function.Injective (some ∘ Json.string) :=
    (Option.some_injective Json).comp fun _ _ => Json.string.inj
  refine ⟨items, hitems, hlength, ?_⟩
  rw [hlabels, List.nodup_map_iff hshown]
  exact nodup_mapIdx_labelAt

/-- A page with a table that has the `id` "1", and a table without one after it. -/
def numberedPage : Element :=
  ⟨"body", .empty,
    [⟨"table", .ofList [("id", .string "1"), ("data-role", .string "datatable")], []⟩,
      ⟨"table", .ofList [("data-role", .string "datatable")], []⟩]⟩

/-- On this page only one table has an `id`, and both have the same label, while `init` would have
them under different keys. -/
theorem showTables_sameLabel :
    let engine : Engine Id := ⟨Host.ofJson .null, .standard⟩
    let found := engine.settings.selector.find numberedPage
    (found.filterMap Element.id?).Nodup ∧
      found.mapIdx Recording.keyAt = ["1", "table-1"] ∧
      ∃ items, engine.showTables numberedPage = .array items ∧
        items.map (Json.member? "table") = [some (.string "1"), some (.string "1")] := by
  intro engine found
  obtain ⟨items, hitems, hlabels⟩ := engine.labels_showTables numberedPage
  have hsame : found.mapIdx labelAt = ["1", "1"] := by decide +kernel
  refine ⟨by decide, by decide +kernel, items, hitems, ?_⟩
  rw [hlabels, hsame]
  rfl

end Engine

end TableMarkup
