import Mathlib.Data.List.Nodup
import TableMarkup.Proofs.Markup.AttributeLaws
import TableMarkup.Proofs.Ordered.Insertions
import TableMarkup.Table.Build

/-!
# Attributes that state options

An option is stated by one attribute: its name is the data prefix, the option prefix and the name of
the option, in whatever letter case. The short names of the table are the proper names in lower case,
so an attribute states at most one option, and two attributes never state the same one.

* `Element.headerCells_of_head`: the header cells of a table whose head has nothing but cells.
* `OptionName.canonical?_eq_some_iff`: the option that a short name means.
* `Settings.attributeOf`, `Settings.optionOf?`: the attribute of an option, and the option of an
  attribute.
* `Settings.optionsOf_eq`, `Settings.nodup_optionsOf`: the options that an element states, in the
  order of its attributes, each once.
* `Settings.get?_optionsOf`: what an element states about an option is what is found under its
  attribute.
* `Settings.optionsOf_eq_of_others`: an attribute that states no option may change or come and go.
* `Engine.buildConfig_congr`: a configuration depends on the options that are stated, and on nothing
  else in the markup.
-/

namespace TableMarkup

theorem Text.lower_append (s t : String) : lower (s ++ t) = lower s ++ lower t := by
  rw [← String.toList_inj, toList_lower, String.toList_append, List.map_append,
    String.toList_append, toList_lower, toList_lower]

/-- The header cells of a table are the cells of its head, if they have nothing inside. -/
theorem Element.headerCells_of_head {tag : String} {a b : Attributes} {cells : List Element}
    (h : ∀ cell ∈ cells, cell.hasTag "th" = true ∧ cell.children = []) :
    headerCells ⟨tag, a, [⟨"thead", b, cells⟩]⟩ = cells := by
  have hhead : decide (Text.SameLetters "thead" "thead") = true := by decide
  have hrow : decide (Text.SameLetters "thead" "th") = false := by decide
  -- Induction on the cells: nothing is gathered below any of them.
  have hcells : cellsAmong true cells = cells := by
    induction cells with
    | nil => rfl
    | cons cell rest ih =>
      obtain ⟨⟨hth, hempty⟩, hrest⟩ := List.forall_mem_cons.mp h
      obtain ⟨tag, attributes, children⟩ := cell
      obtain rfl : children = [] := hempty
      rw [cellsAmong, hth, ih hrest, cellsBelow, cellsAmong]
      rfl
  rw [headerCells, cellsBelow, cellsAmong, cellsAmong, hasTag, hasTag, hhead, hrow, cellsBelow]
  simp [hcells]

/-! ## Names of options -/

namespace OptionName

/-- The proper names of all options. -/
def names : List String :=
  table.map Prod.snd

/-- Short names are the proper names in lower case. -/
theorem lower_of_mem_table {short c : String} (h : (short, c) ∈ table) : Text.lower c = short := by
  have hall : ∀ entry ∈ table, Text.lower entry.2 = entry.1 := by decide +kernel
  exact hall (short, c) h

theorem nodup_table : (Members.names table).Nodup := by
  decide +kernel

/-- A short name means the option whose proper name it is, but for letter case. -/
theorem canonical?_eq_some_iff {short c : String} :
    canonical? short = some c ↔ c ∈ names ∧ Text.lower c = Text.lower short := by
  rw [canonical?, Members.get?_eq_some_iff nodup_table]
  constructor
  · intro h
    exact ⟨List.mem_map_of_mem h, lower_of_mem_table h⟩
  · rintro ⟨hname, hlower⟩
    obtain ⟨⟨key, c⟩, hentry, rfl⟩ := List.mem_map.mp hname
    rw [← hlower, lower_of_mem_table hentry]
    exact hentry

theorem eq_of_lower_eq {c d : String} (hc : c ∈ names) (hd : d ∈ names)
    (h : Text.lower c = Text.lower d) : c = d := by
  have hmeans : canonical? d = some c := canonical?_eq_some_iff.mpr ⟨hc, h⟩
  have hitself : canonical? d = some d := canonical?_eq_some_iff.mpr ⟨hd, rfl⟩
  rw [hmeans] at hitself
  exact Option.some.inj hitself

end OptionName

/-! ## The attribute of an option -/

namespace Settings

/-- The name of the attribute that states an option. -/
def attributeOf (s : Settings) (option : String) : String :=
  s.dataPrefix ++ s.optionPrefix ++ option

/-- The option that is stated by the attribute of a name in lower case. -/
def optionOf? (s : Settings) (name : String) : Option String :=
  OptionName.names.find? fun c => Text.lower (s.attributeOf c) = name

/-- In lower case the attribute of an option is made of the prefixes and the option in lower
case. -/
theorem lower_attributeOf (s : Settings) (c : String) :
    Text.lower (s.attributeOf c) =
      Text.lower s.dataPrefix ++ Text.lower s.optionPrefix ++ Text.lower c := by
  rw [attributeOf, Text.lower_append, Text.lower_append]

/-- Options whose attributes have the same letters have the same letters themselves. -/
theorem lower_of_lower_attributeOf (s : Settings) {c d : String}
    (h : Text.lower (s.attributeOf c) = Text.lower (s.attributeOf d)) :
    Text.lower c = Text.lower d := by
  rw [lower_attributeOf, lower_attributeOf] at h
  exact (String.append_right_inj _).mp h

/-- An attribute states the option whose attribute it is, and this is the only one. -/
theorem optionOf?_eq_some_iff (s : Settings) {name c : String} :
    s.optionOf? name = some c ↔
      c ∈ OptionName.names ∧ Text.lower (s.attributeOf c) = name := by
  constructor
  · intro h
    exact ⟨List.mem_of_find?_eq_some h, by simpa using List.find?_some h⟩
  · rintro ⟨hname, rfl⟩
    obtain ⟨d, hd⟩ : ∃ d, s.optionOf? (Text.lower (s.attributeOf c)) = some d := by
      rw [optionOf?, ← Option.isSome_iff_exists, List.find?_isSome]
      exact ⟨c, hname, by simp⟩
    have hlower : Text.lower (s.attributeOf d) = Text.lower (s.attributeOf c) := by
      simpa using List.find?_some hd
    -- The search stops at the first such option, and there is no other.
    have hsame : d = c := OptionName.eq_of_lower_eq (List.mem_of_find?_eq_some hd) hname
      (s.lower_of_lower_attributeOf hlower)
    rw [hd, hsame]

/-- To take the two prefixes off an attribute in lower case and to look up what is left is to ask for
the option that the attribute states. -/
theorem canonical?_afterPrefix? (s : Settings) {name : String}
    (h : Text.lower name = name) :
    ((Text.afterPrefix? (Text.lower s.dataPrefix) name).bind fun rest =>
      (Text.afterPrefix? (Text.lower s.optionPrefix) rest).bind OptionName.canonical?) =
        s.optionOf? name := by
  refine Option.ext fun c => ?_
  rw [optionOf?_eq_some_iff, lower_attributeOf]
  simp only [Option.bind_eq_some_iff, Text.afterPrefix?_eq_some_iff,
    OptionName.canonical?_eq_some_iff]
  constructor
  · rintro ⟨rest, hrest, short, hshort, hname, hlower⟩
    refine ⟨hname, ?_⟩
    -- What is left of a name in lower case is in lower case itself.
    have hleft : Text.lower short = short := by
      rw [hrest, hshort, ← String.append_assoc, Text.lower_append, Text.lower_append,
        Text.lower_lower, Text.lower_lower] at h
      exact (String.append_right_inj _).mp h
    rw [hlower, hleft, hrest, hshort, String.append_assoc]
  · rintro ⟨hname, rfl⟩
    refine ⟨Text.lower s.optionPrefix ++ Text.lower c, String.append_assoc, Text.lower c, rfl,
      hname, ?_⟩
    rw [Text.lower_lower]

/-! ## The options of an element -/

variable (s : Settings) (e : Element)

/-- The options that an element states stand in the order of its attributes. -/
theorem optionsOf_eq : s.optionsOf e =
    e.attributes.entries.filterMap fun (name, raw) => (s.optionOf? name).map fun c => (c, raw) := by
  rw [optionsOf, Attributes.afterPrefix, List.filterMap_filterMap]
  refine List.filterMap_congr fun entry hentry => ?_
  obtain ⟨name, raw⟩ := entry
  have hlower : Text.lower name = name :=
    e.attributes.lower_names name (List.mem_map_of_mem hentry)
  dsimp only
  rw [← s.canonical?_afterPrefix? hlower, Option.map_bind, Option.bind_map]
  simp only [Function.comp_def]

/-- The options are those that the attributes state, in the order of the attributes. -/
theorem names_optionsOf : Members.names (s.optionsOf e) =
    (Members.names e.attributes.entries).filterMap s.optionOf? := by
  rw [optionsOf_eq, Members.names, Members.names, List.map_filterMap, List.filterMap_map]
  refine List.filterMap_congr fun entry _ => ?_
  rw [Option.map_map, Function.comp_apply]
  exact Option.map_id'

theorem nodup_optionsOf : (Members.names (s.optionsOf e)).Nodup := by
  rw [names_optionsOf]
  refine List.Nodup.filterMap (fun a a' c ha ha' => ?_) e.attributes.table.nodup
  rw [← ((s.optionOf?_eq_some_iff).mp ha).2, ← ((s.optionOf?_eq_some_iff).mp ha').2]

/-- An option is stated with a value if its attribute has this value. -/
theorem mem_optionsOf {c : String} {raw : Value} : (c, raw) ∈ s.optionsOf e ↔
    c ∈ OptionName.names ∧ (Text.lower (s.attributeOf c), raw) ∈ e.attributes.entries := by
  rw [optionsOf_eq, List.mem_filterMap]
  constructor
  · rintro ⟨⟨name, raw'⟩, hentry, hstated⟩
    obtain ⟨d, hd, heq⟩ := Option.map_eq_some_iff.mp hstated
    cases heq
    obtain ⟨hname, rfl⟩ := (s.optionOf?_eq_some_iff).mp hd
    exact ⟨hname, hentry⟩
  · rintro ⟨hname, hentry⟩
    refine ⟨(Text.lower (s.attributeOf c), raw), hentry, Option.map_eq_some_iff.mpr ⟨c, ?_, rfl⟩⟩
    exact (s.optionOf?_eq_some_iff).mpr ⟨hname, rfl⟩

/-- What an element states about an option is what is found under its attribute. -/
theorem get?_optionsOf {c : String} (h : c ∈ OptionName.names) :
    Members.get? c (s.optionsOf e) = e.attributes.get? (s.attributeOf c) := by
  refine Option.ext fun raw => ?_
  rw [Members.get?_eq_some_iff (s.nodup_optionsOf e), mem_optionsOf, Attributes.get?,
    Ordered.get?, Members.get?_eq_some_iff e.attributes.table.nodup]
  exact and_iff_right h

/-- Elements whose attributes are the same, but for one that states no option, state the same
options. -/
theorem optionsOf_eq_of_others {name : String} (h : s.optionOf? name = none) {e e' : Element}
    (hothers : e.attributes.entries.filter (·.1 ≠ name) =
      e'.attributes.entries.filter (·.1 ≠ name)) : s.optionsOf e = s.optionsOf e' := by
  let stated (entry : String × Value) : Option (String × Value) :=
    (s.optionOf? entry.1).map fun c => (c, entry.2)
  -- The attribute that states no option makes no difference, whether it is there or not.
  have hfilter (entries : List (String × Value)) :
      (entries.filter (·.1 ≠ name)).filterMap stated = entries.filterMap stated := by
    rw [List.filterMap_filter]
    refine List.filterMap_congr fun entry _ => ?_
    by_cases hname : entry.1 = name
    · simp [stated, hname, h]
    · simp [hname]
  calc s.optionsOf e = e.attributes.entries.filterMap stated := s.optionsOf_eq e
    _ = (e.attributes.entries.filter (·.1 ≠ name)).filterMap stated := (hfilter _).symm
    _ = (e'.attributes.entries.filter (·.1 ≠ name)).filterMap stated := by rw [hothers]
    _ = e'.attributes.entries.filterMap stated := hfilter _
    _ = s.optionsOf e' := (s.optionsOf_eq e').symm

end Settings

/-! ## What a configuration depends on -/

namespace Engine

variable {m : Type → Type} [Monad m] {engine engine' : Engine m}

/-- To set options asks nothing of the settings, only of the host. -/
theorem setOptions_congr {α : Type} (hhost : engine.host = engine'.host)
    (set : α → String → Value → α) (acc : α) (options : List (String × Value)) :
    engine.setOptions set acc options = engine'.setOptions set acc options := by
  induction options generalizing acc with
  | nil => rfl
  | cons entry rest ih =>
    rw [setOptions, setOptions, hhost]
    congr 1
    funext value
    exact ih _

/-- Cells that state the same options give the same columns. -/
theorem buildColumns_congr (hhost : engine.host = engine'.host) {cells cells' : List Element}
    (hcells : cells.map engine.settings.optionsOf = cells'.map engine'.settings.optionsOf) :
    engine.buildColumns cells = engine'.buildColumns cells' := by
  induction cells generalizing cells' with
  | nil =>
    rw [List.map_nil, eq_comm, List.map_eq_nil_iff] at hcells
    rw [hcells]
    rfl
  | cons cell cells ih =>
    obtain ⟨cell', rest', rfl, hcell, hrest⟩ := List.map_eq_cons_iff.mp hcells.symm
    rw [buildColumns, buildColumns, buildColumn, buildColumn, hcell, ih hrest.symm,
      setOptions_congr hhost]

/-- Tables that state the same options, as do their header cells, have the same configuration. -/
theorem buildConfig_congr (hhost : engine.host = engine'.host) {e e' : Element}
    (htable : engine.settings.optionsOf e = engine'.settings.optionsOf e')
    (hcells : e.headerCells.map engine.settings.optionsOf =
      e'.headerCells.map engine'.settings.optionsOf) :
    engine.buildConfig e = engine'.buildConfig e' := by
  rw [buildConfig, buildConfig, htable, setOptions_congr hhost, buildColumns_congr hhost hcells]

end Engine

end TableMarkup
