import TableMarkup.Rendering.Initialisation

/-!
# Calls by name

A page may ask for what is to be done with an element by the name of a method. With no name, or with
options in its place, the element is initialised. Options are not looked at: markup alone says how a
table is configured.

| Method | Does |
|---|---|
| `getValueFromString` | resolves its first argument |
| `getConfigValue` | resolves its first argument, and keeps it if nothing is found |
| `getDataTableConfig` | builds the configuration |
| `initializeDataTable` | initialises |

* `Invocation.method` finds the method of an invocation.
* `Engine.dispatch` does what is asked for.
-/

namespace TableMarkup

inductive Method where
  | resolve
  | configValue
  | buildConfig
  | initialise
deriving DecidableEq

namespace Method

def all : List Method := [.resolve, .configValue, .buildConfig, .initialise]

def name : Method → String
  | .resolve => "getValueFromString"
  | .configValue => "getConfigValue"
  | .buildConfig => "getDataTableConfig"
  | .initialise => "initializeDataTable"

def ofName? (name : String) : Option Method :=
  all.find? (·.name = name)

end Method

inductive Failure where
  | unknownMethod (name : String)
  | refused (refusal : Refusal)
deriving DecidableEq

def Failure.message : Failure → String
  | .unknownMethod name => "Method " ++ name ++ " does not exist on initiatable"
  | .refused refusal => "renderer failed: " ++ refusal.message

inductive Invocation where
  | default
  | options (given : Members Json)
  | named (method : String) (args : List Value)

def Invocation.method : Invocation → Except Failure Method
  | .default => .ok .initialise
  | .options _ => .ok .initialise
  | .named name _ =>
    -- An empty name is no name.
    if name.isEmpty then .ok .initialise
    else match Method.ofName? name with
      | some method => .ok method
      | none => .error (.unknownMethod name)

def Invocation.argument : Invocation → Value
  | .named _ (first :: _) => first
  | _ => .undefined

inductive Outcome (η : Type) where
  | value (v : Value)
  | config (c : TableConfig)
  | handle (h : η)

namespace Engine

variable {m : Type → Type} [Monad m] {ρ η : Type}

def dispatch (engine : Engine m) (r : Renderer ρ η) (invocation : Invocation) (state : ρ)
    (e : Element) : m (Attempt Failure ρ (Outcome η)) :=
  match invocation.method with
  | .error failure => pure ⟨.error failure, e.attributes, state⟩
  | .ok .resolve => do
    let v ← engine.host.resolve invocation.argument
    pure ⟨.ok (.value v), e.attributes, state⟩
  | .ok .configValue => do
    let v ← engine.host.configValue invocation.argument
    pure ⟨.ok (.value v), e.attributes, state⟩
  | .ok .buildConfig => do
    let c ← engine.buildConfig e
    pure ⟨.ok (.config c), e.attributes, state⟩
  | .ok .initialise => do
    let attempt ← engine.initialise r state e
    pure { attempt with outcome := (attempt.outcome.map .handle).mapError .refused }

end Engine

end TableMarkup
