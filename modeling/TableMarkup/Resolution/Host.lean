import TableMarkup.Value.Basic

/-!
# Hosts

Names in markup mean what the host says. A host answers look-ups of global names, runs its
functions, and may be able to evaluate source text. All of these may have any effect, so a host works
in a monad `m`: `Id` for a host without state, `StateM σ` for one with state. What is common to all
hosts is that members are looked up in values, and that a call runs the function that its name stands
for.

* `Host.lookup`, `Host.callIn` and `Host.evaluate` are what resolution asks of a host.
* `Host.ofGlobals` is the host with a table of global names; `Host.minimal` has nothing but global
  look-up.
* `Host.traced` is a host that also writes down what it was asked: which global names it looked up,
  what it ran and what it evaluated.
-/

namespace TableMarkup

structure Host (m : Type → Type) where
  /-- What a global name stands for. -/
  global : String → m Value
  /-- What a function that is called by its global name is called on. -/
  receiver : m Value
  /-- Runs a function on a receiver, with arguments. -/
  call : Callable → Value → List Json → m Value
  /-- Evaluates source text, for a host that is able to. -/
  evaluator : Option (String → m (Option Value))

inductive Scope where
  | global
  | member (of : Value)

/-- Whether names are looked up among the global ones. -/
def Scope.isGlobal : Scope → Bool
  | .global => true
  | .member _ => false

/-- What a host may be asked. -/
inductive Request where
  | evaluate (source : String)
  | lookUp (name : String)
  | call (name : String) (receiver : Value) (args : List Json)

namespace Host

variable {m : Type → Type} [Monad m]

/-- What a name stands for in a scope. In a value the host is not asked. -/
def lookup (host : Host m) (scope : Scope) (name : String) : m Value :=
  match scope with
  | .global => host.global name
  | .member v => pure (v.member name)

/-- What a function that is found in a scope is called on. -/
def receiverIn (host : Host m) : Scope → m Value
  | .global => host.receiver
  | .member v => pure v

/-- Calls what a name stands for; `undefined` if that is no function. -/
def callIn (host : Host m) (scope : Scope) (name : String) (args : List Json) : m Value := do
  match ← host.lookup scope name with
  | .function f _ =>
    -- A function is called on what it was found in.
    let receiver ← host.receiverIn scope
    host.call f receiver args
  | _ => pure .undefined

def evaluate (host : Host m) (source : String) : m (Option Value) :=
  match host.evaluator with
  | some evaluate => evaluate source
  | none => pure none

/-- A host with a table of global names, on which their functions are called. -/
def ofGlobals (globals : Members Value) (call : Callable → Value → List Json → m Value)
    (evaluator : Option (String → m (Option Value))) : Host m where
  global name := pure (.ofOption (Members.get? name globals))
  receiver := pure (.object globals)
  call := call
  evaluator := evaluator

/-- A host that can look global names up and run functions, and nothing else. -/
def minimal (globals : Members Value) (call : Callable → Value → List Json → m Value) :
    Host m where
  global name := pure (.ofOption (Members.get? name globals))
  receiver := pure .undefined
  call := call
  evaluator := none

/-- The host that writes down each request before it serves it. -/
def traced (host : Host m) : Host (StateT (List Request) m) where
  global name := do
    modify (· ++ [.lookUp name])
    host.global name
  receiver := host.receiver
  call f receiver args := do
    modify (· ++ [.call f.name receiver args])
    host.call f receiver args
  evaluator := host.evaluator.map fun evaluate source => do
    modify (· ++ [.evaluate source])
    evaluate source

end Host

/-- The global names that a JSON value defines: the members of an object, and none otherwise. -/
def globalsOfJson : Json → Members Value
  | .object members => members.map fun (name, j) => (name, Value.ofJson j)
  | _ => []

/-- The host whose global names are those of a JSON value. It has no functions. -/
def Host.ofJson (j : Json) : Host Id :=
  .ofGlobals (globalsOfJson j) (fun _ _ _ => pure .undefined) none

end TableMarkup
