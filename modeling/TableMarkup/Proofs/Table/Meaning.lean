import Mathlib.Data.List.Forall2
import TableMarkup.Proofs.Table.OptionAttributes

/-!
# What a configuration says

With a host that has no state, a configuration is determined by what its element states. An option
holds the value of the attribute that states it, and is absent if there is none; only `destroy` is
there in any case. Header cells give a list of columns, each of which says what its cell states, and
the list displaces an option `columns`.

* `Engine.stated?`, `Engine.statedNames`: the value that an element states for an option, and the
  options that it states in the order of its attributes.
* `Engine.Tells`: a column says what a cell states; `Engine.tells_buildColumn`.
* `Engine.get?_options`, `Engine.names_options`: the options of a table before columns are attached.
* `Engine.buildConfig_says`: the whole configuration of a table.
-/

namespace TableMarkup

namespace Engine

variable (engine : Engine Id) (e : Element)

/-- The value that an element states for an option: what the attribute of the option stands for. -/
def stated? (c : String) : Option Value :=
  (e.attributes.get? (engine.settings.attributeOf c)).map engine.host.configValue

/-- The options that an element states, in the order of its attributes. -/
def statedNames : List String :=
  (Members.names e.attributes.entries).filterMap engine.settings.optionOf?

/-- The options that an element states, with their values. -/
def resolved : List (String × Value) :=
  (engine.settings.optionsOf e).map fun entry => (entry.1, engine.host.configValue entry.2)

theorem names_resolved : Members.names (engine.resolved e) = engine.statedNames e := by
  rw [resolved, Members.names_map, Settings.names_optionsOf, statedNames]

theorem nodup_statedNames : (engine.statedNames e).Nodup := by
  rw [← names_resolved, resolved, Members.names_map]
  exact engine.settings.nodup_optionsOf e

theorem nodup_resolved : (Members.names (engine.resolved e)).Nodup := by
  rw [names_resolved]
  exact engine.nodup_statedNames e

/-- The value of an option is what its attribute stands for. -/
theorem get?_resolved {c : String} (h : c ∈ OptionName.names) :
    Members.get? c (engine.resolved e) = engine.stated? e c := by
  rw [resolved, Members.get?_map, Settings.get?_optionsOf _ _ h, stated?]

/-- Only names of options are stated. -/
theorem mem_names_of_mem_statedNames {c : String} (h : c ∈ engine.statedNames e) :
    c ∈ OptionName.names := by
  obtain ⟨name, -, hstated⟩ := List.mem_filterMap.mp h
  exact ((engine.settings.optionOf?_eq_some_iff).mp hstated).1

/-- Options are set one after the other. -/
theorem setOptions_eq {α : Type} (set : α → String → Value → α) (acc : α)
    (options : List (String × Value)) :
    engine.setOptions set acc options =
      (options.map fun entry => (entry.1, engine.host.configValue entry.2)).foldl
        (fun acc entry => set acc entry.1 entry.2) acc := by
  -- Without effects each value is set before the next one is read, which is a fold.
  induction options generalizing acc with
  | nil => rfl
  | cons entry rest ih =>
    rw [List.map_cons, List.foldl_cons, ← ih]
    rfl

/-! ## Columns -/

/-- A column says what a cell states, and nothing else. -/
structure Tells (column : OptionMap) : Prop where
  /-- An option holds the value that is stated for it. -/
  get? (c : String) : c ∈ OptionName.names → column.get? c = engine.stated? e c
  /-- The options stand in the order of the attributes. -/
  names : column.names = engine.statedNames e
  /-- There are no other names. -/
  known (c : String) : c ∈ column.names → c ∈ OptionName.names
  /-- No option is there twice. -/
  nodup : column.names.Nodup

theorem buildColumn_eq : engine.buildColumn e = Ordered.empty.insertAll (engine.resolved e) :=
  engine.setOptions_eq Ordered.insert .empty (engine.settings.optionsOf e)

/-- A column has the options that its cell states, in the order of the attributes. -/
theorem names_buildColumn : (engine.buildColumn e).names = engine.statedNames e := by
  rw [buildColumn_eq, Ordered.names_insertAll _ (engine.nodup_resolved e), names_resolved]
  exact List.filter_eq_self.mpr fun c _ => by simp [Ordered.names, Ordered.empty, Members.names]

/-- The column of a cell says what the cell states. -/
theorem tells_buildColumn : engine.Tells e (engine.buildColumn e) where
  get? c hname := by
    rw [buildColumn_eq, Ordered.get?_insertAll _ (engine.nodup_resolved e),
      engine.get?_resolved e hname]
    exact Option.or_none
  names := engine.names_buildColumn e
  known c hmem := by
    rw [names_buildColumn] at hmem
    exact engine.mem_names_of_mem_statedNames e hmem
  nodup := by
    rw [names_buildColumn]
    exact engine.nodup_statedNames e

/-- There is one column for each cell. -/
theorem buildColumns_eq (cells : List Element) :
    engine.buildColumns cells = cells.map engine.buildColumn := by
  induction cells with
  | nil => rfl
  | cons cell cells ih =>
    rw [List.map_cons, ← ih]
    rfl

/-! ## Tables -/

/-- The options of a table before columns are attached. -/
def options : OptionMap :=
  TableConfig.start.options.insertAll (engine.resolved e)

/-- As long as no list is attached, to set options is to set them among the options. -/
theorem foldl_insert_eq (entries : List (String × Value)) (options : OptionMap) :
    entries.foldl (fun config entry => config.insert entry.1 entry.2)
        (⟨options, none⟩ : TableConfig) = ⟨options.insertAll entries, none⟩ := by
  induction entries generalizing options with
  | nil => rfl
  | cons entry rest ih =>
    have hinsert : (⟨options, none⟩ : TableConfig).insert entry.1 entry.2 =
        ⟨options.insert entry.1 entry.2, none⟩ := by
      rw [TableConfig.insert, ite_self]
    rw [List.foldl_cons, hinsert, ih, Ordered.insertAll_cons]

/-- A configuration is its options with the columns of the header cells attached. -/
theorem buildConfig_eq : engine.buildConfig e =
    (⟨engine.options e, none⟩ : TableConfig).setColumns (e.headerCells.map engine.buildColumn) := by
  have hoptions : engine.setOptions TableConfig.insert .start (engine.settings.optionsOf e) =
      (⟨engine.options e, none⟩ : TableConfig) := by
    rw [setOptions_eq]
    exact foldl_insert_eq (engine.resolved e) TableConfig.start.options
  rw [← hoptions, ← buildColumns_eq]
  rfl

theorem names_start : TableConfig.start.options.names = [OptionName.destroy] := rfl

/-- What is there before any option has been set. -/
theorem get?_start (c : String) : TableConfig.start.options.get? c =
    if c = OptionName.destroy then some (.bool true) else none := by
  by_cases h : c = OptionName.destroy
  · subst h
    rw [if_pos rfl]
    exact Ordered.get?_insert_self ..
  · rw [if_neg h]
    exact Ordered.get?_insert_of_ne _ h _

/-- An option of the table holds what is stated for it, and else what was there at first. -/
theorem get?_options {c : String} (h : c ∈ OptionName.names) : (engine.options e).get? c =
    (engine.stated? e c).or (if c = OptionName.destroy then some (.bool true) else none) := by
  rw [options, Ordered.get?_insertAll _ (engine.nodup_resolved e), engine.get?_resolved e h,
    get?_start]

/-- The option `destroy` comes first, and the others follow in the order of their attributes. -/
theorem names_options : (engine.options e).names =
    OptionName.destroy :: (engine.statedNames e).filter (· ≠ OptionName.destroy) := by
  rw [options, Ordered.names_insertAll _ (engine.nodup_resolved e), names_resolved, names_start,
    List.singleton_append]
  congr 1
  refine List.filter_congr fun c _ => ?_
  simp

theorem nodup_names_options : (engine.options e).names.Nodup :=
  (engine.options e).nodup

variable {e : Element}

/-- Without header cells the configuration is its options. -/
theorem buildConfig_of_no_cells (h : e.headerCells = []) :
    engine.buildConfig e = ⟨engine.options e, none⟩ := by
  rw [buildConfig_eq, h]
  rfl

/-- With header cells there is a list of columns, and no option `columns`. -/
theorem buildConfig_of_cells (h : e.headerCells ≠ []) : engine.buildConfig e =
    ⟨(engine.options e).erase OptionName.columns, some (e.headerCells.map engine.buildColumn)⟩ := by
  have hcolumns : (e.headerCells.map engine.buildColumn).isEmpty = false := by
    rw [List.isEmpty_eq_false_iff]
    exact fun hnil => h (List.map_eq_nil_iff.mp hnil)
  rw [buildConfig_eq, TableConfig.setColumns, hcolumns]
  rfl

/-- The names of a configuration: `destroy`, the other options in the order of their attributes, and
the list of columns. -/
theorem keys_buildConfig : (engine.buildConfig e).keys =
    OptionName.destroy :: (engine.statedNames e).filter
        (fun c => c ≠ OptionName.destroy ∧ (c ≠ OptionName.columns ∨ e.headerCells = [])) ++
      if e.headerCells = [] then [] else [OptionName.columns] := by
  by_cases h : e.headerCells = []
  · rw [engine.buildConfig_of_no_cells h, TableConfig.keys, names_options]
    simp [h]
  -- To take `columns` away leaves the other names in their order, with `destroy` in front.
  · have herase : ((engine.options e).erase OptionName.columns).names =
        OptionName.destroy :: (engine.statedNames e).filter
          (fun c => c ≠ OptionName.destroy ∧ (c ≠ OptionName.columns ∨ e.headerCells = [])) := by
      rw [Ordered.names_erase, (engine.nodup_names_options e).erase_eq_filter, names_options,
        List.filter_cons_of_pos (by decide), List.filter_filter]
      congr 1
      refine List.filter_congr fun c _ => ?_
      rw [Bool.eq_iff_iff]
      simp [h, and_comm]
    rw [engine.buildConfig_of_cells h, TableConfig.keys, herase, if_neg h]
    rfl

/-- The whole configuration of a table: which names it has and in which order, and what each of them
holds. Every option but `columns` holds what the table states, or else `destroy` is true. Header cells
give one column each, in their order, in place of an option `columns`. -/
theorem buildConfig_says (engine : Engine Id) (table : Element) :
    let config := engine.buildConfig table
    let cells := table.headerCells
    (∀ c ∈ OptionName.names, c ≠ OptionName.columns → config.get? c =
      (engine.stated? table c).or (if c = OptionName.destroy then some (.bool true) else none)) ∧
    (cells ≠ [] → config.get? OptionName.columns = none ∧
      ∃ columns, config.columns = some columns ∧ List.Forall₂ engine.Tells cells columns) ∧
    (cells = [] → config.columns = none ∧
      config.get? OptionName.columns = engine.stated? table OptionName.columns) ∧
    config.keys = OptionName.destroy :: (engine.statedNames table).filter
        (fun c => c ≠ OptionName.destroy ∧ (c ≠ OptionName.columns ∨ cells = [])) ++
      (if cells = [] then [] else [OptionName.columns]) ∧
    (∀ c ∈ config.keys, c ∈ OptionName.names) ∧ config.keys.Nodup := by
  intro config cells
  have hkeys : config.keys = _ := engine.keys_buildConfig
  refine ⟨?_, ?_, ?_, hkeys, ?_, ?_⟩
  · intro c hname hne
    -- Whether columns are attached or not, the other options are left as they are.
    have hget : config.get? c = (engine.options table).get? c := by
      by_cases h : cells = []
      · exact congrArg (TableConfig.get? · c) (engine.buildConfig_of_no_cells h)
      · refine (congrArg (TableConfig.get? · c) (engine.buildConfig_of_cells h)).trans ?_
        exact Ordered.get?_erase_of_ne _ hne
    rw [hget, engine.get?_options table hname]
  · intro h
    have hconfig : config = _ := engine.buildConfig_of_cells h
    rw [hconfig]
    refine ⟨Ordered.get?_erase_self .., _, rfl, ?_⟩
    rw [List.forall₂_map_right_iff, List.forall₂_same]
    exact fun cell _ => engine.tells_buildColumn cell
  · intro h
    have hconfig : config = _ := engine.buildConfig_of_no_cells h
    have hname : OptionName.columns ∈ OptionName.names := by decide
    rw [hconfig]
    refine ⟨rfl, (engine.get?_options table hname).trans ?_⟩
    rw [if_neg (by decide), Option.or_none]
  · intro c hmem
    rw [hkeys, List.mem_append, List.mem_cons, List.mem_filter] at hmem
    rcases hmem with (rfl | ⟨hstated, -⟩) | hlist
    · decide
    · exact engine.mem_names_of_mem_statedNames table hstated
    · split at hlist
      · contradiction
      · rw [List.mem_singleton.mp hlist]
        decide
  · rw [hkeys, List.nodup_append]
    refine ⟨List.nodup_cons.mpr ⟨by simp, (engine.nodup_statedNames table).filter _⟩, ?_, ?_⟩
    · split <;> simp
    · intro c hc d hd
      split at hd
      · contradiction
      · next hcells =>
        rw [List.mem_singleton.mp hd]
        rintro rfl
        -- The list of columns and an option `columns` exclude one another.
        simp [hcells, OptionName.columns, OptionName.destroy] at hc

/-- A table that states the options `columns` and `destroy`, a number under a name of the host and a
text that stands for nothing, and has one header cell. -/
theorem buildConfig_says_headed :
    let engine : Engine Id := ⟨Host.ofJson (.object [("size", .ofNat 25)]), .standard⟩
    let cell : Element := ⟨"th", .ofList [("data-dt_Data", .string "TRUE")], []⟩
    let table : Element := ⟨"table", .ofList [("DATA-dt_columns", .null),
      ("data-dt_pagelength", .string "'size'"), ("data-dt_destroy", .string "False"),
      ("data-dt_scrollY", .string "20em")], [⟨"thead", .empty, [cell]⟩]⟩
    let config := engine.buildConfig table
    config.keys = ["destroy", "pageLength", "scrollY", "columns"] ∧ ¬ config.destroys ∧
      (config.get? "pageLength").map (·.toJson.text) = some "25" ∧
      (config.get? "scrollY").bind Value.text? = some "20em" ∧ config.get? "columns" = none ∧
      ∃ column, config.columns = some [column] ∧
        (column.get? "data").bind Value.bool? = some true := by
  intro engine cell table config
  -- The table has one header cell, so the option `columns` gives way.
  have hcell : table.headerCells = [cell] := by
    refine Element.headerCells_of_head fun x hx => ?_
    rw [List.mem_singleton.mp hx]
    exact ⟨by decide, rfl⟩
  have hstated : engine.statedNames table = ["columns", "pageLength", "destroy", "scrollY"] := by
    decide +kernel
  obtain ⟨hget, hcells, -, hkeys, -⟩ := buildConfig_says engine table
  rw [hcell] at hcells hkeys
  rw [hstated] at hkeys
  obtain ⟨hnone, columns, hcolumns, htells⟩ := hcells (List.cons_ne_nil _ _)
  -- There is one column for the one cell.
  obtain ⟨column, rest, htell, hrest, rfl⟩ := List.forall₂_cons_left_iff.mp htells
  obtain rfl := List.forall₂_nil_left_iff.mp hrest
  refine ⟨hkeys.trans (by decide), ?_, ?_, ?_, hnone, column, hcolumns, ?_⟩
  · rw [TableConfig.destroys, hget OptionName.destroy (by decide) (by decide)]
    decide +kernel
  · rw [hget "pageLength" (by decide) (by decide)]
    decide +kernel
  · rw [hget "scrollY" (by decide) (by decide)]
    decide +kernel
  · rw [htell.get? "data" (by decide)]
    decide +kernel

end Engine

end TableMarkup
