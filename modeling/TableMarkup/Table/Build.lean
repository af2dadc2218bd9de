import TableMarkup.Markup.Element
import TableMarkup.Resolution.Resolve
import TableMarkup.Settings.Basic
import TableMarkup.Table.Config

/-!
# Configurations from markup

The options of a table are the attributes whose names begin with the data prefix and then the option
prefix, and go on with a known option name. Their values are resolved; what stands for nothing is
kept as it is written. Each header cell of the table gives a column in the same way.

* `Settings.optionsOf` are the options that an element states, before resolution.
* `Engine.buildConfig` and `Engine.buildColumn` are the configurations of a table and of a column.
-/

namespace TableMarkup

/-- What an element states about options: their proper names and raw values, in order. -/
def Settings.optionsOf (s : Settings) (e : Element) : List (String × Value) :=
  (e.attributes.afterPrefix (Text.lower s.dataPrefix)).filterMap fun (name, raw) =>
    ((Text.afterPrefix? (Text.lower s.optionPrefix) name).bind OptionName.canonical?).map
      fun option => (option, raw)

/-- A host and the settings by which markup is read. -/
structure Engine (m : Type → Type) where
  host : Host m
  settings : Settings

namespace Engine

variable {m : Type → Type} [Monad m]

/-- Resolves options one after the other and sets them. -/
def setOptions {α : Type} (engine : Engine m) (set : α → String → Value → α) :
    α → List (String × Value) → m α
  | acc, [] => pure acc
  | acc, (option, raw) :: rest => do
    let value ← engine.host.configValue raw
    setOptions engine set (set acc option value) rest

def buildColumn (engine : Engine m) (cell : Element) : m OptionMap :=
  engine.setOptions Ordered.insert .empty (engine.settings.optionsOf cell)

def buildColumns (engine : Engine m) : List Element → m (List OptionMap)
  | [] => pure []
  | cell :: cells => do
    let column ← engine.buildColumn cell
    let columns ← buildColumns engine cells
    pure (column :: columns)

def buildConfig (engine : Engine m) (table : Element) : m TableConfig := do
  let config ← engine.setOptions TableConfig.insert .start (engine.settings.optionsOf table)
  -- Header cells come last, so a list of them takes the place of the option `columns`.
  let columns ← engine.buildColumns table.headerCells
  pure (config.setColumns columns)

end Engine

end TableMarkup
