import TableMarkup.Command.Line
import TableMarkup.Command.Views
import TableMarkup.Json.Printer
import TableMarkup.Markup.Reading
import TableMarkup.Settings.Loading
import TableMarkup.Yaml.Printer

/-!
# The program

The program reads the files that its arguments name, global names first, then settings, then the
document, does what the command says, and writes the outcome. The first thing that fails is
reported.

* `Files.globals`, `Files.settings` and `Files.document` read the files.
* `Command.perform` does what a command says.
* `Program.run` is the whole program.
-/

namespace TableMarkup

inductive CommandFailure where
  | globalsUnreadable (path : String)
  | globalsMalformed (path : String)
  | settings (fault : SettingsFault)
  | documentUnreadable (path : String)
  | documentMalformed (path : String)
  | rendererVersion (text : String)
  | refused (refusal : Refusal)

def CommandFailure.message : CommandFailure → String
  | .globalsUnreadable path => "failed to read namespace " ++ path
  | .globalsMalformed path => "invalid namespace JSON in " ++ path
  | .settings fault => fault.message
  | .documentUnreadable path => "failed to read document " ++ path
  | .documentMalformed path => "invalid document in " ++ path
  | .rendererVersion text => "invalid renderer version '" ++ text ++ "'"
  | .refused refusal => (Failure.refused refusal).message

variable {m : Type → Type} [Monad m]

namespace Files

/-- The host of the global names in a file; without a file there are none. -/
def globals (files : Files m) : Option String → ExceptT CommandFailure m (Host Id)
  | none => pure (Host.ofJson .null)
  | some path => do
    match ← files.read path with
    | .error _ => throw (.globalsUnreadable path)
    | .ok text =>
      match Json.parse? text.toList with
      | some j => pure (Host.ofJson j)
      | none => throw (.globalsMalformed path)

/-- The settings in a file; without a file the standard ones. -/
def settings (files : Files m) : Option String → ExceptT CommandFailure m Settings
  | none => pure .standard
  | some path => ExceptT.mk do return (← Settings.ofFile files path).mapError .settings

def document (files : Files m) (path : String) : ExceptT CommandFailure m Element := do
  match ← files.read path with
  | .error _ => throw (.documentUnreadable path)
  | .ok text =>
    match Element.parse text.toList with
    | .ok e => pure e
    | .error _ => throw (.documentMalformed path)

end Files

/-- What `init` shows for a renderer whose version is given as a text. -/
def Engine.showInit (engine : Engine Id) (document : Element) (versionText : String) :
    Except CommandFailure Json :=
  match Version.parse? versionText with
  | some version => (engine.showRecord document version).mapError .refused
  | none => .error (.rendererVersion versionText)

def Command.perform (command : Command) (engine : Engine Id) (files : Files m) :
    ExceptT CommandFailure m Json :=
  match command with
  | .config path => do return engine.showTables (← files.document path)
  | .resolve text strict => pure (engine.showAnswer text strict)
  | .init path versionText => do
    let document ← files.document path
    ExceptT.mk (pure (engine.showInit document versionText))

def Format.render (format : Format) (j : Json) : List Char :=
  match format with
  | .json => j.pretty
  | .yaml => j.yaml

structure Exit where
  code : UInt32
  stdout : String
  error : Option String

namespace Program

def banner : String := "initiatable 2.0.0"

def usage : String :=
  "Usage: initiatable [-n FILE] [-s FILE] [-f json|yaml] [-v] COMMAND\n\n" ++
    "  config DOCUMENT\n  resolve VALUE [--strict]\n  init DOCUMENT [--renderer-version VERSION]"

def misused : Misuse → Exit
  | .help => ⟨0, usage ++ "\n", none⟩
  | .version => ⟨0, banner ++ "\n", none⟩
  | _ => ⟨2, "", some usage⟩

/-- Does what the arguments say, and gives the text of the outcome. -/
def text (files : Files m) (line : CommandLine) : ExceptT CommandFailure m String := do
  -- The first file that fails is the one reported.
  let host ← files.globals line.globals
  let settings ← files.settings line.settings
  let outcome ← line.command.perform ⟨host, settings⟩ files
  return String.ofList (line.format.render outcome)

/-- The whole program. -/
def run (files : Files m) (args : List String) : m Exit :=
  match CommandLine.parse args with
  | .error misuse => pure (misused misuse)
  | .ok line => do
    match ← (text files line).run with
    | .ok out => pure ⟨0, out ++ "\n", none⟩
    | .error failure => pure ⟨1, "", some ("Error: " ++ failure.message)⟩

end Program

end TableMarkup
