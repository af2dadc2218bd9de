import TableMarkup.Json.Printer
import TableMarkup.Proofs.Markup.Likeness
import TableMarkup.Proofs.Ordered.Reordering
import TableMarkup.Proofs.Table.Meaning

/-!
# Letter case and order in markup

How a document is written in capitals and small letters shows in no configuration, nor does the letter
case of the prefixes, and what is marked stands at the same places. The order of attributes shows in the
order of a configuration, and no longer in its JSON.

* `Settings.optionsOf_congr`: the options that are stated, whatever the letter case.
* `Engine.buildConfig_of_sameLetters`, `Settings.picks_of_sameLetters`: configurations and marks.
* `Engine.perm_resolved`, `TableConfig.toJson_setColumns_congr`: what the order of attributes does.
* `Engine.toJson_buildConfig_of_reordered`: the JSON of a configuration.
* `Engine.letterCase_and_order`: all of it together.
-/

namespace TableMarkup

/-! ## Letter case -/

/-- Elements that differ in letter case only have the same attributes, since names are kept in lower
case. -/
theorem Element.Like.attributes_eq {e e' : Element} (h : Element.Like Opening.SameLetters e e') :
    e.attributes = e'.attributes := by
  cases h with
  | mk h _ => exact Attributes.ofList_eq_of_lowered h.attributes

/-- The letter case of the prefixes does not matter. -/
theorem Settings.optionsOf_congr {s s' : Settings}
    (hdata : Text.SameLetters s.dataPrefix s'.dataPrefix)
    (hoption : Text.SameLetters s.optionPrefix s'.optionPrefix) {e e' : Element}
    (h : e.attributes = e'.attributes) : s.optionsOf e = s'.optionsOf e' := by
  have hdata : Text.lower s.dataPrefix = Text.lower s'.dataPrefix := hdata
  have hoption : Text.lower s.optionPrefix = Text.lower s'.optionPrefix := hoption
  rw [optionsOf, optionsOf, h, hdata, hoption]

/-- Neither the letter case of the markup nor that of the prefixes shows in a configuration. -/
theorem Engine.buildConfig_of_sameLetters {m : Type → Type} [Monad m] (engine engine' : Engine m)
    (hhost : engine.host = engine'.host)
    (hdata : Text.SameLetters engine.settings.dataPrefix engine'.settings.dataPrefix)
    (hoption : Text.SameLetters engine.settings.optionPrefix engine'.settings.optionPrefix)
    {e e' : Element} (h : Element.Like Opening.SameLetters e e') :
    engine.buildConfig e = engine'.buildConfig e' := by
  have htable : engine.settings.optionsOf e = engine'.settings.optionsOf e' :=
    Settings.optionsOf_congr hdata hoption h.attributes_eq
  -- The header cells come in pairs, and each pair states the same options.
  have hcells := h.headerCells fun _ _ => Opening.SameLetters.tag
  have hstated : List.Forall₂ Eq (e.headerCells.map engine.settings.optionsOf)
      (e'.headerCells.map engine'.settings.optionsOf) :=
    List.rel_map (fun x y hxy => Settings.optionsOf_congr hdata hoption hxy.attributes_eq) hcells
  rw [List.forall₂_eq_eq_eq] at hstated
  exact buildConfig_congr hhost htable hstated

/-- An element is marked or not, whatever the letter case of its markup and of the settings. -/
theorem Settings.picks_of_sameLetters {s s' : Settings}
    (htag : Text.SameLetters s.tableTag s'.tableTag)
    (hmarker : Text.SameLetters s.markerAttribute s'.markerAttribute)
    (hvalue : s.markerValue = s'.markerValue) (e e' : Element)
    (h : Element.Like Opening.SameLetters e e') : s.selector.picks e = s'.selector.picks e' := by
  have hmarker : Text.lower s.markerAttribute = Text.lower s'.markerAttribute := hmarker
  have htag : Text.lower s.tableTag = Text.lower s'.tableTag := htag
  have hpicked : e.hasTag s.tableTag = e'.hasTag s'.tableTag := by
    rw [h.hasTag fun _ _ => Opening.SameLetters.tag]
    show decide (Text.lower e'.tag = _) = decide (Text.lower e'.tag = _)
    rw [htag]
  -- The text of the marker is the same one, under a name with the same letters.
  have htext : e.attributes.text? s.markerAttribute = e'.attributes.text? s'.markerAttribute := by
    rw [h.attributes_eq, Attributes.text?_congr _ hmarker]
  rw [Bool.eq_iff_iff, picks_selector, picks_selector, hpicked, htext, hvalue]

/-! ## The order of attributes -/

/-- The order in which members of different names are listed does not show in the object. -/
theorem Json.ofMembers_eq_of_perm {xs ys : List (String × Json)} (h : xs.Perm ys)
    (hxs : (Members.names xs).Nodup) : Json.ofMembers xs = Json.ofMembers ys :=
  congrArg Json.object (Members.ofList_eq_of_perm h hxs)

/-- The order of options does not show in their JSON. -/
theorem OptionMap.toJson_eq_of_perm {options options' : OptionMap}
    (h : options.entries.Perm options'.entries) : options.toJson = options'.toJson := by
  refine Json.ofMembers_eq_of_perm (h.map _) ?_
  rw [Members.names_map]
  exact options.nodup

/-- Nor does it where columns are attached. -/
theorem TableConfig.toJson_setColumns_congr {options options' : OptionMap}
    (h : options.entries.Perm options'.entries) {columns columns' : List OptionMap}
    (hcolumns : columns.map OptionMap.toJson = columns'.map OptionMap.toJson) :
    ((⟨options, none⟩ : TableConfig).setColumns columns).toJson =
      ((⟨options', none⟩ : TableConfig).setColumns columns').toJson := by
  have hempty : columns.isEmpty = columns'.isEmpty := by
    rw [← List.isEmpty_map (f := OptionMap.toJson), hcolumns, List.isEmpty_map]
  have herased := Ordered.perm_erase h OptionName.columns
  unfold setColumns
  rw [hempty]
  split
  · exact OptionMap.toJson_eq_of_perm h
  · have hoptions := OptionMap.toJson_eq_of_perm herased
    show Json.object (Members.ofList (_ ++ [_])) = Json.object (Members.ofList (_ ++ [_]))
    rw [Members.ofList, Members.ofList, List.foldl_append, List.foldl_append, hcolumns]
    exact congrArg (fun members => Json.object (Members.insert _ _ members))
      (Json.object.inj hoptions)

namespace Engine

variable (engine : Engine Id) {e e' : Element}

/-- Attributes in another order state the same options in another order. -/
theorem perm_resolved (h : e.attributes.entries.Perm e'.attributes.entries) :
    (engine.resolved e).Perm (engine.resolved e') := by
  rw [resolved, resolved, Settings.optionsOf_eq, Settings.optionsOf_eq]
  exact (h.filterMap _).map _

/-- Nor does the order of the attributes of a cell show in the JSON of its column. -/
theorem toJson_buildColumn (h : e.attributes.entries.Perm e'.attributes.entries) :
    (engine.buildColumn e).toJson = (engine.buildColumn e').toJson := by
  rw [buildColumn_eq, buildColumn_eq]
  apply OptionMap.toJson_eq_of_perm
  exact Ordered.perm_insertAll _ (engine.perm_resolved h) (engine.nodup_resolved e)

end Engine

/-- Elements that differ in the order of attributes have the same attributes in another order. -/
theorem Element.Like.perm_entries (h : Element.Like Opening.Reordered e e') :
    e.attributes.entries.Perm e'.attributes.entries := by
  cases h with
  | mk h _ => exact Attributes.perm_entries_ofList h

/-- The order of attributes does not show in the JSON of a configuration, whichever elements they
stand in. -/
theorem Engine.toJson_buildConfig_of_reordered (engine : Engine Id) {e e' : Element}
    (h : Element.Like Opening.Reordered e e') :
    (engine.buildConfig e).toJson = (engine.buildConfig e').toJson := by
  have hcells := h.headerCells fun _ _ => Opening.Reordered.sameTag
  have hcolumns : List.Forall₂ Eq
      ((e.headerCells.map engine.buildColumn).map OptionMap.toJson)
      ((e'.headerCells.map engine.buildColumn).map OptionMap.toJson) := by
    rw [List.map_map, List.map_map]
    exact List.rel_map (fun x y hxy => engine.toJson_buildColumn hxy.perm_entries) hcells
  rw [List.forall₂_eq_eq_eq] at hcolumns
  rw [buildConfig_eq, buildConfig_eq]
  refine TableConfig.toJson_setColumns_congr ?_ hcolumns
  exact Ordered.perm_insertAll _ (engine.perm_resolved h.perm_entries) (engine.nodup_resolved e)

/-- Letter case and the order of attributes do not matter. Documents that are the same but for the
letter case of tags and of names of attributes have the same configurations, also under settings whose
prefixes have another letter case; what is marked stands at the same places in them, also under
settings that name the tag and the marker in another letter case; and documents that are the same but
for the order of attributes have configurations with the same JSON. -/
theorem Engine.letterCase_and_order :
    (∀ (m : Type → Type) [Monad m] (host : Host m) (s s' : Settings) (e e' : Element),
      Text.SameLetters s.dataPrefix s'.dataPrefix →
      Text.SameLetters s.optionPrefix s'.optionPrefix →
      Element.Like Opening.SameLetters e e' →
        Engine.buildConfig ⟨host, s⟩ e = Engine.buildConfig ⟨host, s'⟩ e') ∧
    (∀ (s s' : Settings) (e e' : Element),
      Text.SameLetters s.tableTag s'.tableTag →
      Text.SameLetters s.markerAttribute s'.markerAttribute →
      s.markerValue = s'.markerValue →
      Element.Like Opening.SameLetters e e' →
        (s.selector.located e).map Prod.fst = (s'.selector.located e').map Prod.fst ∧
        (s.selector.located e).map Prod.snd = s.selector.find e ∧
        (s'.selector.located e').map Prod.snd = s'.selector.find e') ∧
    ∀ (engine : Engine Id) (e e' : Element), Element.Like Opening.Reordered e e' →
      (engine.buildConfig e).toJson.compact = (engine.buildConfig e').toJson.compact := by
  refine ⟨?_, ?_, ?_⟩
  · intro m _ host s s' e e' hdata hoption h
    exact buildConfig_of_sameLetters ⟨host, s⟩ ⟨host, s'⟩ rfl hdata hoption h
  · intro s s' e e' htag hmarker hvalue h
    have hpicks := Settings.picks_of_sameLetters htag hmarker hvalue
    exact ⟨Selector.paths_eq_of_like hpicks h, s.selector.map_snd_located e,
      s'.selector.map_snd_located e'⟩
  · intro engine e e' h
    rw [engine.toJson_buildConfig_of_reordered h]

/-- A marked table with one header cell: as it is usually written, in other letter case, and with its
attributes the other way round. -/
theorem Engine.letterCase_and_order_headed :
    let loud : Settings :=
      { Settings.standard with
        dataPrefix := "DATA-", optionPrefix := "Dt_", tableTag := "TABLE",
        markerAttribute := "DATA-role" }
    let element (o : Opening) (children : List Element) : Element :=
      ⟨o.tag, .ofList o.attributes, children⟩
    let head (thead th : String) : Element :=
      element ⟨thead, []⟩ [element ⟨th, [("data-dt_data", .bool true)]⟩ []]
    let usual := element ⟨"table", [("data-role", .string "datatable"),
      ("data-dt_paging", .bool false)]⟩ [head "thead" "th"]
    let shouted := element ⟨"Table", [("Data-Role", .string "datatable"),
      ("DATA-dt_PAGING", .bool false)]⟩ [head "THEAD" "TH"]
    let turned := element ⟨"table", [("data-dt_paging", .bool false),
      ("data-role", .string "datatable")]⟩ [head "thead" "th"]
    let engine : Engine Id := ⟨Host.ofJson .null, .standard⟩
    Element.Like Opening.SameLetters usual shouted ∧
      Element.Like Opening.Reordered usual turned ∧
      engine.buildConfig usual = Engine.buildConfig ⟨engine.host, loud⟩ shouted ∧
      (loud.selector.located shouted).map Prod.fst = [[]] ∧
      (engine.buildConfig usual).toJson.compact = (engine.buildConfig turned).toJson.compact := by
  intro loud element head usual shouted turned engine
  have hhead (thead th : String) (hthead : Text.SameLetters "thead" thead)
      (hth : Text.SameLetters "th" th) :
      Element.Like Opening.SameLetters (head "thead" "th") (head thead th) :=
    .mk ⟨hthead, rfl⟩ (.cons (.mk ⟨hth, rfl⟩ .nil) .nil)
  have hrole : Text.lower "data-role" = Text.lower "Data-Role" := by decide
  have hpaging : Text.lower "data-dt_paging" = Text.lower "DATA-dt_PAGING" := by decide
  -- The opening tags have the same names in lower case, those of the table and those inside.
  have hshouted : Element.Like Opening.SameLetters usual shouted := by
    refine .mk ⟨by decide, ?_⟩ (.cons (hhead "THEAD" "TH" (by decide) (by decide)) .nil)
    simp only [Opening.lowered, List.map_cons, List.map_nil, hrole, hpaging]
  have hsame : Element.Like Opening.Reordered (head "thead" "th") (head "thead" "th") :=
    .mk ⟨rfl, .inl rfl⟩ (.cons (.mk ⟨rfl, .inl rfl⟩ .nil) .nil)
  -- Only the attributes of the table change places.
  have hturned : Element.Like Opening.Reordered usual turned :=
    .mk ⟨rfl, .inr ⟨List.Perm.swap .., by decide⟩⟩ (.cons hsame .nil)
  obtain ⟨hconfig, hplaces, hjson⟩ := letterCase_and_order
  refine ⟨hshouted, hturned, ?_, ?_, ?_⟩
  · exact hconfig Id engine.host .standard loud usual shouted (by decide) (by decide) hshouted
  · rw [← (hplaces .standard loud usual shouted (by decide) (by decide) rfl hshouted).1]
    decide +kernel
  · exact hjson engine usual turned hturned

end TableMarkup
