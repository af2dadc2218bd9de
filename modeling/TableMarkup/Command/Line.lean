/-!
# The command line

```text
initiatable [options] config <document>
initiatable [options] resolve <value> [--strict]
initiatable [options] init <document> [--renderer-version <version>]
```

The options `-n`, `-s`, `-f` and `-v` may stand before or after the name of the command; what stands
after it holds. The value of an option is looked at when the next argument comes, or at the end, so
that an argument which nobody knows is reported first.

* `CommandLine.parse` reads the arguments, or says how they are misused.
-/

namespace TableMarkup

inductive Format where
  | json
  | yaml
deriving DecidableEq

def Format.name : Format → String
  | .json => "json"
  | .yaml => "yaml"

inductive Command where
  | config (document : String)
  | resolve (value : String) (strict : Bool)
  | init (document rendererVersion : String)
deriving DecidableEq

structure CommandLine where
  command : Command
  globals : Option String
  settings : Option String
  format : Format
  verbosity : Nat
deriving DecidableEq

/-- What is wrong with arguments, or what they ask for in place of a command. -/
inductive Misuse where
  | help
  | version
  /-- There are no arguments at all. -/
  | nothing
  | missingCommand
  | unknownCommand
  | unknownArgument
  | missingArgument
  | invalidValue
  | superfluousValue
  | repeated
deriving DecidableEq

namespace CommandLine

inductive Switch where
  | globals
  | settings
  | format
  | verbose
  | strict
  | rendererVersion
  | help
  | version
deriving DecidableEq

def Switch.hasValue : Switch → Bool
  | .globals | .settings | .format | .rendererVersion => true
  | .verbose | .strict | .help | .version => false

inductive Level where
  | top
  | config
  | resolve
  | init
deriving DecidableEq

def Level.ofName? (name : String) : Option Level :=
  [("config", .config), ("resolve", .resolve), ("init", .init)].lookup name

def Level.long? (level : Level) (name : String) : Option Switch :=
  let everywhere := [("namespace", .globals), ("settings", .settings), ("format", .format),
    ("verbose", .verbose), ("help", .help)]
  let here := match level with
    | .top => [("version", .version)]
    | .config => []
    | .resolve => [("strict", .strict)]
    | .init => [("renderer-version", .rendererVersion)]
  (everywhere ++ here).lookup name

def Level.short? (level : Level) (letter : Char) : Option Switch :=
  let everywhere := [('n', .globals), ('s', .settings), ('f', .format), ('v', .verbose), ('h', .help)]
  let here := match level with
    | .top => [('V', .version)]
    | _ => []
  (everywhere ++ here).lookup letter

structure Given where
  globals : Option String
  settings : Option String
  format : Option Format
  verbosity : Option Nat
  strict : Bool
  rendererVersion : Option String
  operand : Option String

def Given.empty : Given := ⟨none, none, none, none, false, none, none⟩

def Given.isEmpty (g : Given) : Bool :=
  g.globals.isNone && g.settings.isNone && g.format.isNone && g.verbosity.isNone && !g.strict &&
    g.rendererVersion.isNone && g.operand.isNone

def path (text : String) : Except Misuse String :=
  if text.isEmpty then .error .invalidValue else .ok text

def formatOf (name : String) : Except Misuse Format :=
  match [Format.json, Format.yaml].find? (·.name = name) with
  | some format => .ok format
  | none => .error .invalidValue

def once {α : Type} (before : Option α) (value : Except Misuse α) : Except Misuse (Option α) :=
  if before.isSome then .error .repeated else value.map some

def Given.withValue (g : Given) (s : Switch) (value : String) : Except Misuse Given :=
  match s with
  | .globals => do return { g with globals := ← once g.globals (path value) }
  | .settings => do return { g with settings := ← once g.settings (path value) }
  | .format => do return { g with format := ← once g.format (formatOf value) }
  | .rendererVersion =>
    do return { g with rendererVersion := ← once g.rendererVersion (.ok value) }
  | _ => .ok g

def Given.withSwitch (g : Given) : Switch → Except Misuse Given
  | .verbose => .ok { g with verbosity := some (min 255 (g.verbosity.getD 0 + 1)) }
  | .strict => if g.strict then .error .repeated else .ok { g with strict := true }
  | .help => .error .help
  | .version => .error .version
  | _ => .ok g

inductive Pending where
  | none
  /-- An option whose value comes next. -/
  | awaiting (s : Switch)
  | value (s : Switch) (text : String)
  | operand (text : String)

structure Reading where
  given : Given
  pending : Pending
  hasOperand : Bool
  /-- Whether options are over. -/
  escaped : Bool

def Reading.start : Reading := ⟨.empty, .none, false, false⟩

def Reading.settle (level : Level) (r : Reading) : Except Misuse Given :=
  match r.pending with
  | .none => .ok r.given
  | .awaiting _ => .error .invalidValue
  | .value s text => r.given.withValue s text
  | .operand text => do
    let operand ← if level = .resolve then .ok text else path text
    return { r.given with operand := some operand }

/-- Takes an option, with the value that is attached to it if there is one. -/
def Reading.switch (level : Level) (r : Reading) (s : Switch) (attached : Option String) :
    Except Misuse Reading := do
  let given ← r.settle level
  match s.hasValue, attached with
  | true, some value => return { r with given := ← given.withValue s value, pending := .none }
  | true, none => return { r with given, pending := .awaiting s }
  | false, _ => return { r with given := ← given.withSwitch s, pending := .none }

def Reading.long (level : Level) (r : Reading) (arg : List Char) : Except Misuse Reading :=
  let name := String.ofList (arg.takeWhile (· ≠ '='))
  let attached := match arg.dropWhile (· ≠ '=') with
    | _ :: value => some (String.ofList value)
    | [] => none
  match level.long? name with
  | none => .error .unknownArgument
  | some s =>
    if !s.hasValue && attached.isSome then .error .superfluousValue else r.switch level s attached

/-- Takes short options, without their dash. An option with a value takes all that follows. -/
def Reading.short (level : Level) : List Char → Reading → Except Misuse Reading
  | [], r => .ok r
  | letter :: rest, r =>
    match level.short? letter with
    | none => .error .unknownArgument
    | some s =>
      if s.hasValue then
        r.switch level s (match rest with
          | [] => none
          | '=' :: value => some (String.ofList value)
          | value => some (String.ofList value))
      else do Reading.short level rest (← r.switch level s none)

def Reading.operand (level : Level) (r : Reading) (arg : String) : Except Misuse Reading :=
  if level = .top then
    .error (if r.escaped && (arg = "help" || (Level.ofName? arg).isSome) then .unknownArgument
      else .unknownCommand)
  else if r.hasOperand then .error .unknownArgument
  else do
    let given ← r.settle level
    return { r with given, pending := .operand arg, hasOperand := true }

/-- Takes an argument that is not the name of a command. -/
def Reading.step (level : Level) (r : Reading) (arg : String) : Except Misuse Reading :=
  if r.escaped then r.operand level arg
  else if arg = "--" then .ok { r with escaped := true }
  else match arg.toList with
    | '-' :: '-' :: rest => r.long level rest
    | '-' :: c :: rest => Reading.short level (c :: rest) r
    | _ =>
      match r.pending with
      | .awaiting s => .ok { r with pending := .value s arg }
      | _ => r.operand level arg

def Reading.isAwaiting (r : Reading) : Bool :=
  match r.pending with
  | .awaiting _ => true
  | _ => false

def inner (level : Level) : List String → Reading → Except Misuse Given
  | [], r => r.settle level
  | arg :: args, r => do inner level args (← r.step level arg)

def Given.command (g : Given) (level : Level) : Except Misuse Command :=
  match level, g.operand with
  | .config, some document => .ok (.config document)
  | .resolve, some value => .ok (.resolve value g.strict)
  | .init, some document => .ok (.init document (g.rendererVersion.getD "1.10.0"))
  | _, _ => .error .missingArgument

/-- The arguments as a whole, from what is given before and after the name of the command. -/
def combine (outer inner : Given) (command : Command) : CommandLine :=
  { command
    globals := inner.globals <|> outer.globals
    settings := inner.settings <|> outer.settings
    format := (inner.format <|> outer.format).getD .json
    verbosity := (inner.verbosity <|> outer.verbosity).getD 0 }

/-- What comes of the command `help` with arguments: each has to name a command in the one before. -/
def helpOn : List String → Misuse
  | [] => .help
  | [name] => if name = "help" || (Level.ofName? name).isSome then .help else .unknownCommand
  | _ => .unknownCommand

/-- Reads the arguments up to the name of a command, and then those of the command. -/
def outer : List String → Reading → Except Misuse CommandLine
  | [], r => do
    let given ← r.settle .top
    .error (if given.isEmpty then .nothing else .missingCommand)
  | arg :: args, r =>
    if r.escaped || r.isAwaiting then do outer args (← r.step .top arg)
    else if arg = "help" then .error (helpOn args)
    else match Level.ofName? arg with
      -- What stands after the name of the command is looked at first.
      | some level => do
        let given ← inner level args .start
        let command ← given.command level
        return combine (← r.settle .top) given command
      | none => do outer args (← r.step .top arg)

def parse (args : List String) : Except Misuse CommandLine :=
  outer args .start

def logDirective (line : CommandLine) : String :=
  match line.verbosity with
  | 0 => "warn"
  | 1 => "initiatable=debug,initiatable_resolve=debug,warn"
  | _ => "initiatable=trace,initiatable_resolve=trace,info"

end CommandLine

end TableMarkup
