import TableMarkup.Json.Printer
import TableMarkup.Text.Debug

/-!
# Events

A JSON text read from left to right is a sequence of events: scalars, keys, and brackets that open
and close. Whatever wants a value of some shape listens to the events through a `Sink`, so that the
first thing wrong with a text is found in reading order, be it malformed JSON or a value of the
wrong shape.

* `Fault` is why a text was refused.
* `Event.found` names what was found where something else was expected.
* `Json.events` are the events that a value stands for.
-/

namespace TableMarkup

inductive Fault where
  | ended
  | malformed
  /-- The text is JSON so far, but a value in it does not have the right shape. -/
  | unsuitable (message : String)
deriving DecidableEq

namespace Json

inductive Event where
  | null
  | bool (b : Bool)
  | number (n : Numeral)
  | string (s : String)
  | openArray
  | closeArray
  | openObject
  | key (name : String)
  | closeObject

structure Sink (σ : Type) where
  accept : σ → Event → Except String σ
  /-- Whether the value that comes next is of no interest; it is then skipped unheard. -/
  skips : σ → Bool
  /-- Whether the array that is being read has room for a further item. -/
  room : σ → Bool

def Event.found : Event → String
  | .null => "null"
  | .bool true => "boolean `true`"
  | .bool false => "boolean `false`"
  | .number (.integer n) => "integer `" ++ String.ofList (Numeral.integer n).render ++ "`"
  | .number (.float x) => "floating point `" ++ String.ofList (Numeral.float x).render ++ "`"
  | .string s => "string " ++ String.ofList (Text.debugQuoted s)
  | .openArray => "sequence"
  | _ => "map"

def Event.unexpected (e : Event) (expected : String) : String :=
  "invalid type: " ++ e.found ++ ", expected " ++ expected

mutual
def events : Json → List Event
  | .null => [.null]
  | .bool b => [.bool b]
  | .number n => [.number n]
  | .string s => [.string s]
  | .array items => .openArray :: itemEvents items ++ [.closeArray]
  | .object members => .openObject :: memberEvents members ++ [.closeObject]

def itemEvents : List Json → List Event
  | [] => []
  | j :: js => events j ++ itemEvents js

def memberEvents : List (String × Json) → List Event
  | [] => []
  | (k, j) :: ms => .key k :: events j ++ memberEvents ms
end

end Json

end TableMarkup
