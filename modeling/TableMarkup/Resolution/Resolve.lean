import TableMarkup.Json.Length
import TableMarkup.Resolution.Literal
import TableMarkup.Resolution.Path

/-!
# Resolution

A raw value becomes what it stands for. Text in the global scope is first tried as a literal; a JSON
string among the literals is unwrapped and its content resolved from the start. What is no literal
is a path, whose first name is looked up in the scope and every further one in the value reached so
far. A raw value that is not text stands for itself.

* `Host.resolve`, `Host.resolveIn` and `Host.configValue` are the entry points.
* `Literal.length_of_json?_string` and `PathStep.length_tail_lt` are why resolution comes to an end.
-/

namespace TableMarkup

/-- Unwrapping a JSON string leaves a text at least two characters shorter. -/
theorem Literal.length_of_json?_string {text s : String}
    (h : Literal.json? text.toList = some (.string s)) : s.length + 2 ≤ text.length := by
  have := Json.length_of_parse?_string h
  simpa [Literal.withDoubleQuotes, String.length_toList] using this

namespace Host

variable {m : Type → Type} [Monad m]

/-- What a path stands for in a scope. A name that leads to something without members ends the walk,
and so does a call whose arguments are not written properly. -/
def resolvePath (host : Host m) (scope : Scope) (path : String) : m Value :=
  match _h : PathStep.of path with
  | .member head tail => do
    let next ← host.lookup scope head
    if next.isObjectLike then host.resolvePath (.member next) tail else pure .undefined
  | .call name (some args) => host.callIn scope name args
  | .call _ none => pure .undefined
  | .property name => host.lookup scope name
termination_by path.length
decreasing_by exact PathStep.length_tail_lt _h

def resolveText (host : Host m) (text : String) : m Value :=
  match Literal.boolean? text with
  | some b => pure (.bool b)
  | none =>
    match Literal.integer? text.toList with
    | some n => pure (.number n)
    | none =>
      match _h : Literal.json? text.toList with
      -- The content may be any literal again, also one more JSON string.
      | some (.string s) => host.resolveText s
      | some j => pure (.ofJson j)
      | none => do
        match ← Literal.function? host text with
        | some f => pure f
        | none => host.resolvePath .global text
termination_by text.length
decreasing_by have := Literal.length_of_json?_string _h; omega

/-- What a raw value stands for in a scope. Literals are recognised in the global scope only. -/
def resolveIn (host : Host m) (scope : Scope) (raw : Value) : m Value :=
  match raw, scope with
  | .string text, .global => host.resolveText text
  | .string text, .member _ => host.resolvePath scope text
  | other, _ => pure other

def resolve (host : Host m) (raw : Value) : m Value :=
  host.resolveIn .global raw

/-- What a raw value stands for, or the raw value itself if it stands for nothing. -/
def configValue (host : Host m) (raw : Value) : m Value := do
  match ← host.resolve raw with
  | .undefined => pure raw
  | resolved => pure resolved

end Host

end TableMarkup
