import TableMarkup.Json.Braces
import TableMarkup.Ordered
import TableMarkup.Table.OptionName
import TableMarkup.Value.Printer

/-!
# Table configurations

What a renderer is told about a table: options by their proper names, in the order in which they
were first set, and perhaps a list of columns with options of their own. `destroy` is set from the
start, so that a table that is rendered again gives way to itself.

* `TableConfig.insert` and `TableConfig.setColumns` compete for the columns: the last of them wins.
* `TableConfig.keys` are the names of the configuration, `columns` last when a list is attached.
* `serialized` keeps the order of the options, `toJson` orders them by name.
-/

namespace TableMarkup

/-- Options by name, in the order in which they were first set. -/
abbrev OptionMap := Ordered Value

namespace OptionMap

def toJson (options : OptionMap) : Json :=
  Json.ofMembers (options.entries.map fun (name, value) => (name, value.toJson))

def serializedMembers (options : OptionMap) : List (List Char) :=
  options.entries.map fun (name, value) => Json.namedMember name value.serialized

def serialized (options : OptionMap) : List Char :=
  Json.braced (serializedMembers options)

end OptionMap

structure TableConfig where
  options : OptionMap
  /-- The options of each column, if there are any columns. -/
  columns : Option (List OptionMap)
deriving Inhabited

namespace TableConfig

/-- The configuration of a table that nothing is said about. -/
def start : TableConfig :=
  { options := Ordered.empty.insert OptionName.destroy (.bool true), columns := none }

/-- Sets an option. Setting the option `columns` drops an attached list. -/
def insert (c : TableConfig) (name : String) (value : Value) : TableConfig :=
  { options := c.options.insert name value
    columns := if name = OptionName.columns then none else c.columns }

/-- Attaches a list of columns in place of the option `columns`. An empty list is not attached. -/
def setColumns (c : TableConfig) (columns : List OptionMap) : TableConfig :=
  if columns.isEmpty then c
  else { options := c.options.erase OptionName.columns, columns := some columns }

def get? (c : TableConfig) (name : String) : Option Value :=
  c.options.get? name

def keys (c : TableConfig) : List String :=
  c.options.names ++ if c.columns.isSome then [OptionName.columns] else []

/-- Whether the table is to give way when it is there already: `destroy` has to be true itself. -/
def destroys (c : TableConfig) : Bool :=
  ((c.get? OptionName.destroy).bind Value.bool?).getD false

def toJson (c : TableConfig) : Json :=
  let options := c.options.entries.map fun (name, value) => (name, value.toJson)
  match c.columns with
  | none => Json.ofMembers options
  | some columns =>
    Json.ofMembers (options ++ [(OptionName.columns, .array (columns.map OptionMap.toJson))])

def serialized (c : TableConfig) : List Char :=
  Json.braced (OptionMap.serializedMembers c.options ++
    match c.columns with
    | none => []
    | some columns =>
      [Json.namedMember OptionName.columns (Json.bracketed (columns.map OptionMap.serialized))])

end TableConfig

end TableMarkup
