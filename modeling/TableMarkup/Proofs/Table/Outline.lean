import TableMarkup.Proofs.Json.RoundTrip
import TableMarkup.Proofs.Ordered.Reordering
import TableMarkup.Proofs.Value.Conversions
import TableMarkup.Table.Config

/-!
# Outlines of configurations

A configuration is written in two ways: directly, with its options in the order in which they were set,
and as JSON, with all members in the order of their names. An outline is what both texts are made of:
the names, and for each of them the text of a value or the objects of a list of columns.

* `TableConfig.outline`, `Outline.text`: the outline of a configuration, and the text made of it.
* `TableConfig.serialized_eq_text`: the configuration is written as its outline says.
* `Outline.inNameOrder`, `TableConfig.compact_toJson`: its JSON is written as the outline with everything
  in the order of names.
* `Outline.Distinct`, `Outline.SameButOrder`: outlines with each name once, and outlines with the same
  members in another order; `Outline.sameButOrder_inNameOrder`.
* `TableConfig.names_outline`, `TableConfig.names_toJson`: the names in both texts.
-/

namespace TableMarkup

/-- The members of an object with the texts of their values. -/
abbrev Texts := List (String × List Char)

/-- The text of an object that is made of the texts of its members. -/
def Texts.object (members : Texts) : List Char :=
  Json.braced (members.map fun entry => Json.namedMember entry.1 entry.2)

/-- What is written for one name of a configuration. -/
inductive Part where
  | value (text : List Char)
  /-- A list of columns, each with the texts of its options. -/
  | columns (objects : List Texts)

def Part.text : Part → List Char
  | .value text => text
  | .columns objects => Json.bracketed (objects.map Texts.object)

/-- The part with the options of each column in the order of their names. -/
def Part.inNameOrder : Part → Part
  | .value text => .value text
  | .columns objects => .columns (objects.map Members.ofList)

/-- What is written of a configuration, name by name. -/
abbrev Outline := List (String × Part)

namespace Outline

def text (o : Outline) : List Char :=
  Texts.object (o.map fun member => (member.1, member.2.text))

/-- The outline with its names in order, and with those of each column in order. -/
def inNameOrder (o : Outline) : Outline :=
  Members.ofList (o.map fun member => (member.1, member.2.inNameOrder))

end Outline

/-! ## The outline of a configuration -/

def OptionMap.texts (options : OptionMap) : Texts :=
  options.entries.map fun entry => (entry.1, entry.2.serialized)

def TableConfig.outline (c : TableConfig) : Outline :=
  (c.options.texts.map fun entry => (entry.1, .value entry.2)) ++
    match c.columns with
    | none => []
    | some columns => [(OptionName.columns, .columns (columns.map OptionMap.texts))]

/-- Options are written with the texts of their values, in their order. -/
theorem OptionMap.serialized_eq_object (options : OptionMap) :
    options.serialized = options.texts.object := by
  unfold serialized serializedMembers texts Texts.object
  rw [List.map_map]
  rfl

/-- The JSON of options is written with the same texts, in the order of names. -/
theorem OptionMap.compact_toJson (options : OptionMap) :
    options.toJson.compact = Texts.object (Members.ofList options.texts) := by
  -- The texts are those of the JSON of the values, which members keep when they are put in order.
  have htexts : options.texts =
      (options.entries.map fun entry => (entry.1, entry.2.toJson)).map
        fun entry => (entry.1, entry.2.compact) := by
    unfold texts
    rw [List.map_map]
    refine List.map_congr_left fun entry _ => ?_
    rw [entry.2.serialized_eq_compact]
    rfl
  rw [htexts, Members.ofList_map, toJson, Json.ofMembers, Json.compact_object, Texts.object,
    List.map_map]
  rfl

namespace TableConfig

variable (c : TableConfig)

/-- The names of the outline are the names of the configuration. -/
theorem names_outline : Members.names c.outline = c.keys := by
  have hoptions : (c.options.texts.map fun entry => (entry.1, Part.value entry.2)).map Prod.fst =
      c.options.names := by
    unfold OptionMap.texts
    rw [List.map_map, List.map_map]
    rfl
  unfold outline keys Members.names
  rw [List.map_append, hoptions]
  cases c.columns <;> rfl

/-- A configuration is written as its outline says. -/
theorem serialized_eq_text : c.serialized = c.outline.text := by
  have hoptions : OptionMap.serializedMembers c.options =
      ((c.options.texts.map fun entry => (entry.1, Part.value entry.2)).map
        fun member => (member.1, member.2.text)).map
          fun entry => Json.namedMember entry.1 entry.2 := by
    unfold OptionMap.serializedMembers OptionMap.texts
    rw [List.map_map, List.map_map, List.map_map]
    rfl
  unfold serialized outline Outline.text Texts.object
  rw [List.map_append, List.map_append, hoptions]
  cases c.columns with
  | none => rfl
  | some columns =>
    -- A list of columns is written with the texts of the options of each column.
    have hobjects : columns.map OptionMap.serialized =
        (columns.map OptionMap.texts).map Texts.object := by
      rw [List.map_map]
      exact List.map_congr_left fun column _ => column.serialized_eq_object
    dsimp only
    rw [hobjects]
    rfl

/-- What the JSON of a configuration has for each name, before the names are put in order. -/
def jsonMembers : List (String × Json) :=
  (c.options.entries.map fun entry => (entry.1, entry.2.toJson)) ++
    match c.columns with
    | none => []
    | some columns => [(OptionName.columns, .array (columns.map OptionMap.toJson))]

/-- The JSON of a configuration is made of these members. -/
theorem toJson_eq_ofMembers : c.toJson = Json.ofMembers c.jsonMembers := by
  unfold toJson jsonMembers
  cases c.columns with
  | none => rw [List.append_nil]
  | some columns => rfl

theorem names_jsonMembers : Members.names c.jsonMembers = c.keys := by
  unfold jsonMembers keys Members.names
  rw [List.map_append, List.map_map]
  cases c.columns <;> rfl

/-- The JSON of a list of columns is written with the texts of their options in the order of names. -/
theorem compact_columns (columns : List OptionMap) :
    (Json.array (columns.map OptionMap.toJson)).compact =
      (Part.columns (columns.map OptionMap.texts)).inNameOrder.text := by
  show _ = Json.bracketed (((columns.map OptionMap.texts).map Members.ofList).map Texts.object)
  rw [Json.compact_array, List.map_map, List.map_map, List.map_map]
  exact congrArg Json.bracketed (List.map_congr_left fun column _ => column.compact_toJson)

/-- The texts of the JSON are those of the outline, with columns in the order of names. -/
theorem compact_jsonMembers : (c.jsonMembers.map fun entry => (entry.1, entry.2.compact)) =
    (c.outline.map fun member => (member.1, member.2.inNameOrder)).map
      fun member => (member.1, member.2.text) := by
  have hoptions : (c.options.entries.map fun entry => (entry.1, entry.2.toJson)).map
      (fun entry => (entry.1, entry.2.compact)) =
        ((c.options.texts.map fun entry => (entry.1, Part.value entry.2)).map
          fun member => (member.1, member.2.inNameOrder)).map
            fun member => (member.1, member.2.text) := by
    unfold OptionMap.texts
    rw [List.map_map, List.map_map, List.map_map, List.map_map]
    refine List.map_congr_left fun entry _ => ?_
    show (entry.1, entry.2.toJson.compact) = (entry.1, entry.2.serialized)
    rw [entry.2.serialized_eq_compact]
  unfold jsonMembers outline
  rw [List.map_append, List.map_append, List.map_append, hoptions]
  cases c.columns with
  | none => rfl
  | some columns =>
    simp only [List.map_cons, List.map_nil, compact_columns]

/-- The JSON of a configuration is written as its outline says, with everything in the order of
names. -/
theorem compact_toJson : c.toJson.compact = c.outline.inNameOrder.text := by
  unfold Outline.text Outline.inNameOrder
  rw [toJson_eq_ofMembers, Json.ofMembers, Json.compact_object, ← Members.ofList_map,
    ← compact_jsonMembers, Members.ofList_map, Texts.object, List.map_map]
  rfl

theorem names_toJson (h : c.keys.Nodup) : ∃ members, c.toJson = .object members ∧
    Members.Sorted members ∧ (Members.names members).Perm c.keys := by
  refine ⟨_, c.toJson_eq_ofMembers, Members.sorted_ofList _, ?_⟩
  rw [← names_jsonMembers] at h ⊢
  exact Members.names_perm (Members.perm_ofList h)

end TableConfig

/-! ## Outlines in another order -/

/-- The same text, or the same columns with their options in another order. -/
inductive Part.SameButOrder : Part → Part → Prop
  | value (text : List Char) : SameButOrder (.value text) (.value text)
  | columns {objects others : List Texts} (h : List.Forall₂ List.Perm objects others) :
      SameButOrder (.columns objects) (.columns others)

/-- The options of every column have different names. -/
def Part.Distinct : Part → Prop
  | .value _ => True
  | .columns objects => ∀ members ∈ objects, (Members.names members).Nodup

/-- A part whose columns have each option once keeps its texts when it is put in order. -/
theorem Part.sameButOrder_inNameOrder {part : Part} (h : part.Distinct) :
    part.SameButOrder part.inNameOrder := by
  cases part with
  | value text => exact .value text
  | columns objects =>
    refine .columns ?_
    rw [List.forall₂_map_right_iff, List.forall₂_same]
    exact fun members hmem => (Members.perm_ofList (h members hmem)).symm

namespace Outline

/-- The same members in another order, with the same texts but for the order within columns. -/
def SameButOrder (o other : Outline) : Prop :=
  ∃ between : Outline,
    List.Forall₂ (fun member member' => member.1 = member'.1 ∧ member.2.SameButOrder member'.2)
      o between ∧
    between.Perm other

/-- All names are different, and so are the names of the options of every column. -/
structure Distinct (o : Outline) : Prop where
  nodup : (Members.names o).Nodup
  parts (member : String × Part) : member ∈ o → member.2.Distinct

/-- An outline with each name once keeps its parts when it is put in order. -/
theorem sameButOrder_inNameOrder {o : Outline} (h : o.Distinct) :
    o.SameButOrder o.inNameOrder := by
  refine ⟨o.map fun member => (member.1, member.2.inNameOrder), ?_, ?_⟩
  · rw [List.forall₂_map_right_iff, List.forall₂_same]
    exact fun member hmem => ⟨rfl, Part.sameButOrder_inNameOrder (h.parts member hmem)⟩
  · refine (Members.perm_ofList ?_).symm
    rw [Members.names_map]
    exact h.nodup

end Outline

/-- A configuration whose names are different has an outline whose names are different. -/
theorem TableConfig.distinct_outline {c : TableConfig} (h : c.keys.Nodup) : c.outline.Distinct where
  nodup := by
    rw [names_outline]
    exact h
  parts member hmember := by
    rcases List.mem_append.mp hmember with hoption | hlist
    · obtain ⟨_, -, rfl⟩ := List.mem_map.mp hoption
      exact trivial
    · cases hcolumns : c.columns with
      | none =>
        rw [hcolumns] at hlist
        exact absurd hlist List.not_mem_nil
      | some columns =>
        rw [hcolumns] at hlist
        rw [List.mem_singleton.mp hlist]
        intro members hmem
        obtain ⟨column, -, rfl⟩ := List.mem_map.mp hmem
        rw [OptionMap.texts, Members.names_map]
        exact column.nodup

end TableMarkup
