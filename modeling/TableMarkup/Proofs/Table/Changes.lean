import TableMarkup.Proofs.Ordered.Edits
import TableMarkup.Proofs.Ordered.Insertions
import TableMarkup.Proofs.Table.Outline

/-!
# Changes of a configuration

A configuration is made by setting options and attaching lists of columns, in any order and any number
of times. The columns have two places, an option and an attached list, and whatever is done last to
either of them takes the other one away.

* `TableConfig.Change`, `TableConfig.changed`: one change, and a configuration after a list of them.
* `Change.columns?`, `Change.value?`: what a change says about the columns, and about an option.
* `TableConfig.history`: the changes as edits of the options; `options_changed`, `names_changed`.
* `columns_changed`, `get?_changed`: the columns and the other options after a list of changes.
* `TableConfig.changed_says`: all that is there after a list of changes, with the names in every view.
* `TableConfig.encodings_agree`: what is written directly and what is written as JSON.
-/

namespace TableMarkup.TableConfig

open Ordered (Edit)

inductive Change where
  | insert (name : String) (value : Value)
  | setColumns (columns : List OptionMap)

def change (c : TableConfig) : Change → TableConfig
  | .insert name value => c.insert name value
  | .setColumns columns => c.setColumns columns

/-- The configuration of a table after some changes, one after the other. -/
def changed (changes : List Change) : TableConfig :=
  changes.foldl change start

theorem changed_concat (changes : List Change) (e : Change) :
    changed (changes ++ [e]) = (changed changes).change e :=
  List.foldl_append ..

/-- The columns of a table, as an option or as an attached list. -/
inductive Columns where
  | option (value : Value)
  | list (columns : List OptionMap)

def Columns.option? : Columns → Option Value
  | .option value => some value
  | .list _ => none

def Columns.list? : Columns → Option (List OptionMap)
  | .option _ => none
  | .list columns => some columns

namespace Change

/-- What the change says about the columns. An empty list says nothing. -/
def columns? : Change → Option Columns
  | .insert name value => if name = OptionName.columns then some (.option value) else none
  | .setColumns columns => if columns.isEmpty then none else some (.list columns)

/-- What the change says about an option other than `columns`. -/
def value? (option : String) : Change → Option Value
  | .insert name value => if name = option then some value else none
  | .setColumns _ => none

/-- The change as edits of the options: a list of columns takes the option `columns` away. -/
def edits : Change → List (Edit Value)
  | .insert name value => [.insert name value]
  | .setColumns columns => if columns.isEmpty then [] else [.erase OptionName.columns]

end Change

/-- The changes as edits of the options. The first of them is made for every table. -/
def history (changes : List Change) : List (Edit Value) :=
  .insert OptionName.destroy (.bool true) :: changes.flatMap Change.edits

/-! ## Options -/

variable {changes : List Change}

/-- A change edits the options, and so does a list of columns that takes `columns` away. -/
theorem options_change (c : TableConfig) (e : Change) :
    (c.change e).options = c.options.run e.edits := by
  cases e with
  | insert name value => rfl
  | setColumns columns => cases columns <;> rfl

/-- The options are what the edits of the history make of an empty table. -/
theorem options_changed (changes : List Change) :
    (changed changes).options = Ordered.empty.run (history changes) := by
  induction changes using List.reverseRecOn with
  | nil => rfl
  | append_singleton changes e ih =>
    -- Induction on the changes from the last one: its edits come behind those of the others.
    have hhistory : history (changes ++ [e]) = history changes ++ e.edits := by
      unfold history
      rw [List.flatMap_append, List.flatMap_singleton, List.cons_append]
    rw [changed_concat, options_change, ih, hhistory, Ordered.run_append]

/-- The options stand in the order in which they were first set since they were last taken away. -/
theorem names_changed (changes : List Change) :
    (changed changes).options.names = (Edit.standing (history changes)).eraseDups := by
  rw [options_changed, Ordered.names_run]

/-- No change takes `destroy` away, and so it stays in front. -/
theorem head?_names_changed (changes : List Change) :
    (changed changes).options.names.head? = some OptionName.destroy := by
  -- The only removals in the history are those of `columns`.
  have hkept : (changes.flatMap Change.edits).any (Edit.erases OptionName.destroy) = false := by
    rw [List.any_eq_false]
    intro edit hedit
    obtain ⟨e, -, hedit⟩ := List.mem_flatMap.mp hedit
    cases e with
    | insert name value =>
      rw [List.mem_singleton.mp hedit]
      exact Bool.false_ne_true
    | setColumns columns =>
      cases columns with
      | nil => exact absurd hedit List.not_mem_nil
      | cons column rest =>
        have hedit : edit ∈ [Edit.erase OptionName.columns] := hedit
        rw [List.mem_singleton.mp hedit]
        decide
  rw [names_changed, history, Edit.standing, if_neg (by rw [hkept]; decide), List.eraseDups_cons]
  rfl

/-- An option other than `columns` holds what it was last set to. -/
theorem get?_changed {option : String} (h : option ≠ OptionName.columns) (changes : List Change) :
    (changed changes).get? option =
      ((.insert OptionName.destroy (.bool true) :: changes).filterMap
        (Change.value? option)).getLast? := by
  induction changes using List.reverseRecOn with
  | nil =>
    by_cases hdestroy : option = OptionName.destroy
    · subst hdestroy
      rfl
    · have hother : Change.value? option (.insert OptionName.destroy (.bool true)) = none :=
        if_neg (Ne.symm hdestroy)
      rw [List.filterMap_cons, hother]
      exact Ordered.get?_insert_of_ne _ hdestroy _
  | append_singleton changes e ih =>
    rw [changed_concat, ← List.cons_append, List.filterMap_append, List.getLast?_append, ← ih]
    cases e with
    | insert name value =>
      show ((changed changes).options.insert name value).get? option = _
      by_cases hname : name = option
      · subst hname
        simp [Change.value?]
      · rw [Ordered.get?_insert_of_ne _ (Ne.symm hname)]
        simp [Change.value?, hname, get?]
    -- A list of columns says nothing about other options, be it empty or not.
    | setColumns columns =>
      cases columns with
      | nil => rfl
      | cons column rest => exact Ordered.get?_erase_of_ne _ h

/-! ## Columns -/

/-- What was last said about the columns is what there is of them, and nothing else. -/
theorem columns_changed (changes : List Change) :
    (changed changes).get? OptionName.columns =
        (changes.filterMap Change.columns?).getLast?.bind Columns.option? ∧
      (changed changes).columns =
        (changes.filterMap Change.columns?).getLast?.bind Columns.list? := by
  induction changes using List.reverseRecOn with
  | nil => exact ⟨rfl, rfl⟩
  | append_singleton changes e ih =>
    rw [changed_concat, List.filterMap_append, List.getLast?_append]
    -- Induction on the changes from the last one, which decides if it says anything about the
    -- columns.
    obtain ⟨hoption, hlist⟩ := ih
    cases e with
    | insert name value =>
      show ((changed changes).options.insert name value).get? OptionName.columns = _ ∧
        (if name = OptionName.columns then none else (changed changes).columns) = _
      by_cases hname : name = OptionName.columns
      · subst hname
        rw [Ordered.get?_insert_self, if_pos rfl]
        exact ⟨rfl, rfl⟩
      · have hsays : [Change.insert name value].filterMap Change.columns? = [] := by
          simp [Change.columns?, hname]
        rw [Ordered.get?_insert_of_ne _ (Ne.symm hname), if_neg hname, hsays]
        exact ⟨hoption, hlist⟩
    | setColumns columns =>
      cases columns with
      | nil => exact ⟨hoption, hlist⟩
      | cons column rest => exact ⟨Ordered.get?_erase_self .., rfl⟩

/-- An option `columns` and an attached list exclude one another. -/
theorem not_both_columns (changes : List Change) :
    (changed changes).get? OptionName.columns = none ∨ (changed changes).columns = none := by
  obtain ⟨hoption, hlist⟩ := columns_changed changes
  rw [hoption, hlist]
  cases (changes.filterMap Change.columns?).getLast? with
  | none => exact .inl rfl
  | some columns =>
    cases columns with
    | option value => exact .inr rfl
    | list columns => exact .inl rfl

/-- No name is there twice, be it of an option or of the list. -/
theorem nodup_keys_changed (changes : List Change) : (changed changes).keys.Nodup := by
  have hoptions : (changed changes).options.names.Nodup := (changed changes).options.nodup
  unfold keys
  cases hlist : (changed changes).columns with
  | none =>
    rw [Option.isSome_none, if_neg Bool.false_ne_true, List.append_nil]
    exact hoptions
  | some columns =>
    -- Where a list is attached, no option `columns` is there, so the name of the list is new.
    have hnone := (not_both_columns changes).resolve_right (by rw [hlist]; nofun)
    have hnew : OptionName.columns ∉ (changed changes).options.names :=
      Members.get?_eq_none_iff.mp hnone
    rw [Option.isSome_some, if_pos rfl, List.nodup_append]
    refine ⟨hoptions, List.nodup_singleton _, fun name hname other hother => ?_⟩
    rw [List.mem_singleton.mp hother]
    rintro rfl
    exact hnew hname

/-! ## What there is after a list of changes -/

/-- What a configuration is after any list of changes. There is an option `columns` or an attached list,
or neither, as was last said about the columns. Every other option holds what it was last set to, and
`destroy` is true at first. The names are all different. They begin with `destroy` and end with
`columns` if a list is attached, and the options stand in the order in which they were first set since
they were last taken away. What is written has exactly these names in this order, and the JSON has the
same names. -/
theorem changed_says (changes : List Change) :
    let c := changed changes
    let columns := (changes.filterMap Change.columns?).getLast?
    (c.get? OptionName.columns = none ∨ c.columns = none) ∧
    (c.get? OptionName.columns = columns.bind Columns.option? ∧
      c.columns = columns.bind Columns.list?) ∧
    (∀ option, option ≠ OptionName.columns → c.get? option =
      ((.insert OptionName.destroy (.bool true) :: changes).filterMap
        (Change.value? option)).getLast?) ∧
    (c.keys.Nodup ∧ c.keys.head? = some OptionName.destroy ∧
      (c.columns.isSome → c.keys.getLast? = some OptionName.columns)) ∧
    (c.options.names = (Edit.standing (history changes)).eraseDups ∧
      c.keys = c.options.names ++ if c.columns.isSome then [OptionName.columns] else []) ∧
    (c.serialized = c.outline.text ∧ Members.names c.outline = c.keys) ∧
    ∃ members, c.toJson = .object members ∧ Members.Sorted members ∧
      (Members.names members).Perm c.keys := by
  intro c columns
  have hhead : c.keys.head? = some OptionName.destroy := by
    unfold keys
    rw [List.head?_append, head?_names_changed]
    rfl
  have hlast (h : c.columns.isSome) : c.keys.getLast? = some OptionName.columns := by
    unfold keys
    rw [if_pos h, List.getLast?_append]
    rfl
  exact ⟨not_both_columns changes, columns_changed changes, fun option h => get?_changed h changes,
    ⟨nodup_keys_changed changes, hhead, hlast⟩, ⟨names_changed changes, rfl⟩,
    ⟨c.serialized_eq_text, c.names_outline⟩, c.names_toJson (nodup_keys_changed changes)⟩

/-- A list of columns that takes the place of an option `columns`, and an option that is set twice. -/
theorem changed_says_displaced :
    let column : OptionMap := Ordered.empty.insert "data" (.string "name")
    let changes : List Change := [.insert "columns" .null, .insert "paging" (.bool true),
      .setColumns [column], .insert "paging" (.bool false), .setColumns []]
    let c := changed changes
    c.get? "paging" = some (.bool false) ∧ c.get? "columns" = none ∧ c.columns = some [column] ∧
      c.options.names = ["destroy", "paging"] ∧ c.keys.getLast? = some "columns" ∧
      c.serialized = "\x7b\"destroy\":true,\"paging\":false,\"columns\":[\x7b\"data\":\"name\"\x7d]\x7d".toList := by
  intro column changes c
  obtain ⟨-, ⟨hoption, hlist⟩, hvalues, ⟨-, -, hlast⟩, ⟨hnames, -⟩, ⟨htext, -⟩, -⟩ :=
    changed_says changes
  have hcolumns : c.columns = some [column] := hlist
  refine ⟨hvalues "paging" (by decide), hoption, hcolumns, hnames.trans (by decide), ?_, ?_⟩
  · exact hlast (by rw [hcolumns]; rfl)
  · exact htext.trans (by decide)

/-! ## The two encodings -/

/-- The two encodings agree. To write a value directly and to write its JSON gives the same text. A
configuration that came about by changes is written directly as its outline says, and its JSON as the
outline in the order of names; both have the same members with the same texts, each once, but for the
order of the members and of those within each column. -/
theorem encodings_agree :
    (∀ v : Value, v.serialized = v.toJson.compact) ∧
    ∀ changes : List Change,
      let c := changed changes
      c.serialized = c.outline.text ∧ c.toJson.compact = c.outline.inNameOrder.text ∧
      c.outline.Distinct ∧ c.outline.SameButOrder c.outline.inNameOrder := by
  refine ⟨Value.serialized_eq_compact, fun changes => ?_⟩
  have hdistinct : (changed changes).outline.Distinct := distinct_outline (nodup_keys_changed changes)
  exact ⟨serialized_eq_text _, compact_toJson _, hdistinct,
    Outline.sameButOrder_inNameOrder hdistinct⟩

end TableMarkup.TableConfig
