import TableMarkup.Rendering.Session

/-!
# What the commands show

The commands work without host code: global names come from a JSON file, and so there is nothing to
run. Each command gives a JSON value.

* `Engine.tables` are the marked tables of a document with their labels and configurations.
* `Engine.answer` is what a text stands for.
* `Engine.record` is what a recording renderer holds after the document has been initialised.
-/

namespace TableMarkup

structure TableEntry where
  /-- The `id` of the table, or its position among the marked tables. -/
  label : String
  config : TableConfig

def TableEntry.toJson (t : TableEntry) : Json :=
  Json.ofMembers [("table", .string t.label), ("config", t.config.toJson)]

def Instance.toJson (i : Instance) : Json :=
  Json.ofMembers [("id", .ofNat i.id), ("key", .string i.key), ("config", i.config.toJson)]

namespace Engine

def tables (engine : Engine Id) (document : Element) : List TableEntry :=
  (engine.settings.selector.find document).zipIdx.map fun (table, position) =>
    { label := table.id?.getD (String.ofList (Text.digits position))
      config := engine.buildConfig table }

def showTables (engine : Engine Id) (document : Element) : Json :=
  .array ((engine.tables document).map TableEntry.toJson)

/-- What a text stands for. A text that stands for nothing is kept, unless `strict`. -/
def answer (engine : Engine Id) (text : String) (strict : Bool) : Value :=
  if strict then engine.host.resolve (.string text) else engine.host.configValue (.string text)

def showAnswer (engine : Engine Id) (text : String) (strict : Bool) : Json :=
  let v := engine.answer text strict
  Json.ofMembers [("kind", .string v.kind), ("value", v.toJson)]

/-- What a recording renderer of a version holds after every marked table has been initialised. -/
def record (engine : Engine Id) (document : Element) (version : Version) :
    Except Refusal Recording :=
  let swept := engine.initialiseAll Recording.renderer (.fresh (some version)) document
  swept.2.outcome.map fun _ => swept.2.renderer

def showRecord (engine : Engine Id) (document : Element) (version : Version) :
    Except Refusal Json :=
  let warning := engine.incompatibility Recording.renderer (.fresh (some version))
  (engine.record document version).map fun r =>
    Json.ofMembers
      [("warning", warning.elim .null fun w => .string w.message),
        ("instances", .array (r.instances.map Instance.toJson))]

end Engine

end TableMarkup
