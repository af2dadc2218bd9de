import TableMarkup.Proofs.Markup.AttributeLaws
import TableMarkup.Proofs.Resolution.Interview
import TableMarkup.Proofs.Table.OptionAttributes

/-!
# What the building of a configuration asks of the host

A configuration is built by resolving the attributes that state options, one after the other: those of
the table in their order, and then those of each header cell. The host is asked what each of these
resolutions asks, in this order, and nothing else, whatever effects its answers have and whatever
becomes of an option later.

* `Settings.States`, `Settings.rawOptions`: the attributes that state an option, and their values.
* `fill`, `Settings.filled`: the configuration for given values of these attributes.
* `Engine.setOptions_bind`, `Engine.buildColumns_eq_mapM`, `Engine.buildConfig_eq_mapM`: to build a
  configuration is to resolve these values in their order, and then to fill them in.
* `Host.run_configValue_text`: what the reading of one option asks.
* `Host.run_configValue_traced`, `Host.run_mapM_traced`: requests are written down behind the earlier
  ones.
* `Engine.buildConfig_asks`: the requests and the configuration.
-/

namespace TableMarkup

/-! ## The attributes that state options -/

namespace Settings

variable (s : Settings)

/-- The attribute of this name, which is in lower case, states an option. -/
def States (name : String) : Prop :=
  ∃ c ∈ OptionName.names, Text.lower (s.attributeOf c) = name

instance (name : String) : Decidable (s.States name) :=
  inferInstanceAs (Decidable (∃ c ∈ OptionName.names, Text.lower (s.attributeOf c) = name))

/-- The raw values of the attributes that state an option, in the order of the attributes. -/
def rawOptions (e : Element) : List Value :=
  (e.attributes.entries.filter (s.States ·.1)).map Prod.snd

/-- An attribute states an option if there is one that it states. -/
theorem states_iff {name : String} : s.States name ↔ (s.optionOf? name).isSome := by
  rw [Option.isSome_iff_exists]
  constructor
  · rintro ⟨c, hc, hname⟩
    exact ⟨c, s.optionOf?_eq_some_iff.mpr ⟨hc, hname⟩⟩
  · rintro ⟨c, hc⟩
    exact ⟨c, s.optionOf?_eq_some_iff.mp hc⟩

/-- The values of the options that are stated are those of the attributes that state them. -/
theorem map_snd_optionsOf (e : Element) : (s.optionsOf e).map Prod.snd = s.rawOptions e := by
  rw [optionsOf_eq, rawOptions, List.map_filterMap, ← List.filterMap_eq_map, List.filterMap_filter]
  refine List.filterMap_congr fun entry _ => ?_
  by_cases h : s.States entry.1
  · obtain ⟨c, hc⟩ := Option.isSome_iff_exists.mp (s.states_iff.mp h)
    simp [h, hc]
  · have hnone : s.optionOf? entry.1 = none := by
      rw [← Option.not_isSome_iff_eq_none, ← states_iff]
      exact h
    simp [h, hnone]

end Settings

/-! ## Filling values in -/

/-- Sets options to given values in their order, and gives back the values that are left. -/
def fill {α : Type} (set : α → String → Value → α) :
    α → List (String × Value) → List Value → α × List Value
  | acc, [], values => (acc, values)
  | acc, _ :: _, [] => (acc, [])
  | acc, (option, _) :: rest, value :: values => fill set (set acc option value) rest values

namespace Settings

variable (s : Settings)

/-- The columns for given values of the attributes that state options. -/
def filledColumns : List Element → List Value → List OptionMap
  | [], _ => []
  | cell :: cells, values =>
    let (column, values) := fill Ordered.insert .empty (s.optionsOf cell) values
    column :: filledColumns cells values

/-- The configuration for given values of the attributes that state options, those of the table and
then those of its header cells. -/
def filled (table : Element) (values : List Value) : TableConfig :=
  let (config, values) := fill TableConfig.insert .start (s.optionsOf table) values
  config.setColumns (s.filledColumns table.headerCells values)

end Settings

/-! ## Building is resolving in order -/

namespace Engine

variable {m : Type → Type} [Monad m] [LawfulMonad m] (engine : Engine m)

/-- To set options, and to resolve further values then, is to resolve them all in their order. -/
theorem setOptions_bind {α : Type} (set : α → String → Value → α) (acc : α)
    (options : List (String × Value)) (raws : List Value) :
    (do
      let acc ← engine.setOptions set acc options
      let values ← raws.mapM engine.host.configValue
      pure (acc, values)) =
      fill set acc options <$> (options.map Prod.snd ++ raws).mapM engine.host.configValue := by
  induction options generalizing acc with
  | nil =>
    rw [setOptions, pure_bind, List.map_nil, List.nil_append, bind_pure_comp]
    rfl
  -- Induction on the options: the first one is resolved before everything else.
  | cons entry rest ih =>
    obtain ⟨option, raw⟩ := entry
    rw [setOptions, bind_assoc, List.map_cons, List.cons_append, List.mapM_cons, map_bind]
    refine bind_congr fun value => ?_
    rw [ih, map_bind, ← bind_pure_comp]
    refine bind_congr fun values => ?_
    rw [map_pure, fill]

/-- To build columns is to resolve the values of all cells in their order, and then to fill them
in. -/
theorem buildColumns_eq_mapM (cells : List Element) : engine.buildColumns cells =
    engine.settings.filledColumns cells <$>
      (cells.flatMap engine.settings.rawOptions).mapM engine.host.configValue := by
  induction cells with
  | nil => rw [buildColumns, List.flatMap_nil, List.mapM_nil, map_pure]; rfl
  | cons cell cells ih =>
    -- The first cell, with everything that is resolved behind it.
    have hfirst := engine.setOptions_bind Ordered.insert .empty (engine.settings.optionsOf cell)
      (cells.flatMap engine.settings.rawOptions)
    rw [Settings.map_snd_optionsOf] at hfirst
    calc engine.buildColumns (cell :: cells)
        = (do
            let column ← engine.buildColumn cell
            let values ← (cells.flatMap engine.settings.rawOptions).mapM engine.host.configValue
            pure (column :: engine.settings.filledColumns cells values)) := by
          rw [buildColumns, ih]
          refine bind_congr fun column => ?_
          rw [bind_map_left]
      _ = (fun read => read.1 :: engine.settings.filledColumns cells read.2) <$> (do
            let column ← engine.buildColumn cell
            let values ← (cells.flatMap engine.settings.rawOptions).mapM engine.host.configValue
            pure (column, values)) := by
          simp only [map_bind, map_pure]
      _ = _ := by
          rw [buildColumn, hfirst, Functor.map_map, List.flatMap_cons]
          rfl

/-- To build a configuration is to resolve the values of the attributes that state options, in their
order and each once, and then to fill them in. -/
theorem buildConfig_eq_mapM (table : Element) : engine.buildConfig table =
    engine.settings.filled table <$>
      (engine.settings.rawOptions table ++
        table.headerCells.flatMap engine.settings.rawOptions).mapM engine.host.configValue := by
  have htable := engine.setOptions_bind TableConfig.insert .start (engine.settings.optionsOf table)
    (table.headerCells.flatMap engine.settings.rawOptions)
  rw [Settings.map_snd_optionsOf] at htable
  calc engine.buildConfig table
      = (fun (config, values) =>
          config.setColumns (engine.settings.filledColumns table.headerCells values)) <$> (do
            let config ← engine.setOptions TableConfig.insert .start
              (engine.settings.optionsOf table)
            let values ← (table.headerCells.flatMap engine.settings.rawOptions).mapM
              engine.host.configValue
            pure (config, values)) := by
        rw [buildConfig, buildColumns_eq_mapM, map_bind]
        refine bind_congr fun config => ?_
        rw [bind_map_left, map_bind]
        simp only [map_pure]
    _ = _ := by
        rw [htable, Functor.map_map]
        rfl

end Engine

/-! ## Requests -/

namespace Host

variable {m : Type → Type} [Monad m] [LawfulMonad m] (host : Host m)

/-- The value for a configuration is what the value stands for, unless it stands for nothing. -/
theorem configValue_eq_map (raw : Value) : host.configValue raw =
    (fun v => if v.isUndefined then raw else v) <$> host.resolve raw := by
  rw [configValue, ← bind_pure_comp]
  refine bind_congr fun v => ?_
  cases v <;> rfl

/-- The reading of a text asks what the interview on the text inside asks. -/
theorem run_configValue_text (text : String) (log : List Request) :
    (host.traced.configValue (.string text)).run log =
      (fun (v, asked) => (if v.isUndefined then .string text else v, log ++ asked.requests)) <$>
        host.interview (Literal.innermost text) := by
  rw [configValue_eq_map, StateT.run_map, resolve, resolveIn, run_resolveText_traced,
    Functor.map_map]

/-- What the reading of an option asks is written down behind what was asked before. -/
theorem run_configValue_traced (raw : Value) (log : List Request) :
    (host.traced.configValue raw).run log =
      (fun answer => (answer.1, log ++ answer.2)) <$> (host.traced.configValue raw).run [] := by
  cases raw with
  | string text =>
    rw [run_configValue_text, run_configValue_text, Functor.map_map]
    simp only [List.nil_append]
  | _ =>
    rw [configValue_eq_map]
    show (_ <$> (pure _ : StateT (List Request) m Value)).run log =
      _ <$> (_ <$> (pure _ : StateT (List Request) m Value)).run []
    rw [map_pure, StateT.run_pure, StateT.run_pure, map_pure, List.append_nil]

/-- What the reading of options in a row asks are the requests of each of them, in their order. -/
theorem run_mapM_traced (raws : List Value) (log : List Request) :
    (raws.mapM host.traced.configValue).run log =
      (fun answers => (answers.map Prod.fst, log ++ answers.flatMap Prod.snd)) <$>
        raws.mapM fun raw => (host.traced.configValue raw).run [] := by
  induction raws generalizing log with
  | nil => simp
  -- Induction on the values, for any requests that were made before.
  | cons raw raws ih =>
    rw [List.mapM_cons, List.mapM_cons, StateT.run_bind, run_configValue_traced, bind_map_left,
      map_bind]
    refine bind_congr fun answer => ?_
    rw [StateT.run_bind, ih, bind_map_left, map_bind]
    refine bind_congr fun answers => ?_
    rw [StateT.run_pure, map_pure, List.map_cons, List.flatMap_cons, List.append_assoc]

end Host

namespace Engine

variable {m : Type → Type} [Monad m]

/-- The engine whose host writes down what it is asked. -/
def traced (engine : Engine m) : Engine (StateT (List Request) m) where
  host := engine.host.traced
  settings := engine.settings

/-- What the building of a configuration asks. The attributes of the table that state an option are
resolved in their order, and then those of each header cell, every one of them once and nothing else;
what the host is asked is what each of these resolutions asks by itself, one after the other, whatever
state the host is in. And the configuration is made of the answers. -/
theorem buildConfig_asks [LawfulMonad m] (engine : Engine m) (table : Element)
    (log : List Request) :
    let raws := engine.settings.rawOptions table ++
      table.headerCells.flatMap engine.settings.rawOptions
    (engine.traced.buildConfig table).run log =
      (fun answers => (engine.settings.filled table (answers.map Prod.fst),
        log ++ answers.flatMap Prod.snd)) <$>
          raws.mapM fun raw => (engine.host.traced.configValue raw).run [] := by
  intro raws
  have hbuild : engine.traced.buildConfig table =
      engine.settings.filled table <$> raws.mapM engine.host.traced.configValue :=
    engine.traced.buildConfig_eq_mapM table
  rw [hbuild, StateT.run_map, Host.run_mapM_traced, Functor.map_map]

/-- A table with an option `columns` that calls a function, an attribute that states no option, and a
header cell that calls the same function: the host evaluates, looks up and calls twice, also for the
option that the cell displaces. -/
theorem buildConfig_asks_displaced :
    let globals : Members Value := [("tick", .function ⟨0, "tick"⟩ [])]
    let host : Host (StateM Nat) := .ofGlobals globals
      (fun _ _ args => do modify (· + 1); pure (.json (.array args)))
      (some fun _ => do modify (· + 10); pure none)
    let engine : Engine (StateM Nat) := ⟨host, .standard⟩
    let cell : Element := ⟨"th", .ofList [("data-dt_data", .string "tick(2)")], []⟩
    let table : Element := ⟨"table", .ofList [("data-dt_columns", .string "tick(1)"),
      ("data-x", .string "tick(3)")], [⟨"thead", .empty, [cell]⟩]⟩
    let built := ((engine.traced.buildConfig table).run []).run 0
    built.1.1.keys = ["destroy", "columns"] ∧ built.1.1.get? "columns" = none ∧ built.2 = 22 ∧
      built.1.2 = [.evaluate "(tick(1))", .lookUp "tick",
        .call "tick" (.object globals) [.ofNat 1],
        .evaluate "(tick(2))", .lookUp "tick", .call "tick" (.object globals) [.ofNat 2]] := by
  intro globals host engine cell table built
  have hcells : table.headerCells = [cell] := by
    refine Element.headerCells_of_head fun x hx => ?_
    rw [List.mem_singleton.mp hx]
    exact ⟨by decide, rfl⟩
  have hown : table.attributes.entries =
      [("data-dt_columns", .string "tick(1)"), ("data-x", .string "tick(3)")] :=
    Attributes.entries_foldl_insert .empty (by decide) (by decide)
  have hcell : cell.attributes.entries = [("data-dt_data", .string "tick(2)")] :=
    Attributes.entries_foldl_insert .empty (by decide) (by decide)
  have hcolumns : engine.settings.optionOf? "data-dt_columns" = some "columns" :=
    engine.settings.optionOf?_eq_some_iff.mpr ⟨by decide, by decide⟩
  have hdata : engine.settings.optionOf? "data-dt_data" = some "data" :=
    engine.settings.optionOf?_eq_some_iff.mpr ⟨by decide, by decide⟩
  have hother : engine.settings.optionOf? "data-x" = none := by
    rw [← engine.settings.canonical?_afterPrefix? (by decide)]
    decide
  -- Of the attributes three stand in the table and its cell, and two of them state an option.
  have hraws : engine.settings.rawOptions table ++
      table.headerCells.flatMap engine.settings.rawOptions =
        [.string "tick(1)", .string "tick(2)"] := by
    simp [Settings.rawOptions, Settings.states_iff, hcells, hown, hcell, hcolumns, hdata, hother]
  -- Either text is a call: the host evaluates it, looks up the function and calls it.
  have hask (text : String) (n : Nat) (h : (text, n) ∈ [("tick(1)", 1), ("tick(2)", 2)]) :
      (host.traced.configValue (.string text)).run [] = fun count : Nat =>
        pure ((.json (.array [.ofNat n]), [.evaluate ("(" ++ text ++ ")"), .lookUp "tick",
          .call "tick" (.object globals) [.ofNat n]]), count + 11) := by
    have hjson : Literal.json? text.toList = none := by
      rcases List.mem_pair.mp h with h | h <;> cases h <;> rfl
    have hinside : Literal.innermost text = text :=
      Literal.innermost_of_not_string fun s hs => nomatch hjson.symm.trans hs
    have hsettled : Literal.settled? text = none := by
      rcases List.mem_pair.mp h with h | h <;> cases h <;> rfl
    have hdot : '.' ∉ text.toList := by
      rcases List.mem_pair.mp h with h | h <;> cases h <;> decide
    have hsegments : PathStep.segments text.toList = [] ++ [text.toList] :=
      PathStep.segments_of_not_mem hdot
    have herrand : host.errand .global text =
        pure (.call ⟨0, "tick"⟩ (.object globals) [.ofNat n]) := by
      rw [host.errand_of_segments .global hsegments]
      rcases List.mem_pair.mp h with h | h <;> cases h <;> rfl
    have hname : PathStep.globalName? .global text = some "tick" := by
      rw [PathStep.globalName?_single hsegments]
      rcases List.mem_pair.mp h with h | h <;> cases h <;> rfl
    rw [Host.run_configValue_text, hinside, Host.interview, hsettled, herrand, hname]
    rfl
  have hanswers : [Value.string "tick(1)", .string "tick(2)"].mapM
      (fun raw => (host.traced.configValue raw).run []) = fun count : Nat =>
        pure ([(.json (.array [.ofNat 1]), [.evaluate "(tick(1))", .lookUp "tick",
            .call "tick" (.object globals) [.ofNat 1]]),
          (.json (.array [.ofNat 2]), [.evaluate "(tick(2))", .lookUp "tick",
            .call "tick" (.object globals) [.ofNat 2]])], count + 22) := by
    rw [List.mapM_cons, List.mapM_cons, List.mapM_nil, hask "tick(1)" 1 (by simp),
      hask "tick(2)" 2 (by simp)]
    rfl
  -- The column of the cell takes the place of the option `columns`.
  have hfilled (a b : Value) : engine.settings.filled table [a, b] =
      (TableConfig.start.insert "columns" a).setColumns [Ordered.empty.insert "data" b] := by
    have htable : engine.settings.optionsOf table = [("columns", .string "tick(1)")] := by
      simp [Settings.optionsOf_eq, hown, hcolumns, hother]
    have hcolumn : engine.settings.optionsOf cell = [("data", .string "tick(2)")] := by
      simp [Settings.optionsOf_eq, hcell, hdata]
    simp only [Settings.filled, Settings.filledColumns, hcells, htable, hcolumn, fill]
  have hasks : (engine.traced.buildConfig table).run [] =
      (fun answers => (engine.settings.filled table (answers.map Prod.fst),
        [] ++ answers.flatMap Prod.snd)) <$>
          [Value.string "tick(1)", .string "tick(2)"].mapM fun raw =>
            (host.traced.configValue raw).run [] := by
    rw [← hraws]
    exact buildConfig_asks engine table []
  rw [hanswers] at hasks
  have hbuilt : built = ((engine.settings.filled table
      [.json (.array [.ofNat 1]), .json (.array [.ofNat 2])],
      [.evaluate "(tick(1))", .lookUp "tick", .call "tick" (.object globals) [.ofNat 1],
        .evaluate "(tick(2))", .lookUp "tick", .call "tick" (.object globals) [.ofNat 2]]), 22) :=
    congrArg (StateT.run · 0) hasks
  rw [hbuilt, hfilled]
  exact ⟨rfl, rfl, rfl, rfl⟩

end Engine

end TableMarkup
