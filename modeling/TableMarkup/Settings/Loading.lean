import TableMarkup.Files
import TableMarkup.Settings.Reading
import TableMarkup.Yaml.Document

/-!
# Settings files

Settings are kept in a YAML or JSON file; the extension of the file says which. In YAML every text
may be written plain, also one that looks like a number, and an empty document sets nothing.

* `Settings.ofYamlText` reads settings written in YAML.
* `Settings.ofFile` reads a file.
-/

namespace TableMarkup

inductive SettingsFault where
  | unreadable (path : String) (why : ReadFailure)
  | yaml
  | json (fault : Fault)
  | unsupportedFormat (format : String)

/-- The text of a fault, without what a format has to say about it. -/
def SettingsFault.message : SettingsFault → String
  | .unreadable path why => "failed to read settings from " ++ path ++ ": " ++ why.message
  | .yaml => "invalid YAML settings"
  | .json _ => "invalid JSON settings"
  | .unsupportedFormat format =>
    "unsupported settings format '" ++ format ++ "' (expected .yaml, .yml or .json)"

namespace Settings

/-- Sets the fields that the members of a mapping name. No field may be set twice. -/
def withMembers (d : Yaml.Document) :
    List (Yaml.Node × Yaml.Node) → List Field → Settings → Option Settings
  | [], _, s => some s
  | (k, v) :: rest, seen, s => do
    let name ← d.text? k
    match Field.ofName? name with
    | none => withMembers d rest seen s
    | some f =>
      guard (f ∉ seen)
      let text ← d.text? v
      let s ← (s.withText f text).toOption
      withMembers d rest (f :: seen) s

def ofDocument (d : Yaml.Document) : Option Settings :=
  match d.root with
  | none => some standard
  | some (.text "" true) => some standard
  | some (.mapping members) => withMembers d members [] standard
  | _ => none

def ofYamlText (text : String) : Option Settings :=
  (Yaml.Document.ofText text).bind ofDocument

def ofFileText (extension text : String) : Except SettingsFault Settings :=
  if extension = "yaml" ∨ extension = "yml" then
    match ofYamlText text with
    | some s => .ok s
    | none => .error .yaml
  else if extension = "json" then (ofJsonText text.toList).mapError .json
  else .error (.unsupportedFormat extension)

def ofFile {m : Type → Type} [Monad m] (files : Files m) (path : String) :
    m (Except SettingsFault Settings) := do
  match ← files.read path with
  | .error why => pure (.error (.unreadable path why))
  | .ok text => pure (ofFileText (Text.lower (fileExtension path)) text)

end Settings

end TableMarkup
