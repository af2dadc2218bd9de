import TableMarkup.Json.Printer
import TableMarkup.Text.Debug
import TableMarkup.Value.Basic

/-!
# Values as JSON

A value becomes JSON in two ways: `Value.toJson` builds the JSON value, `Value.serialized` writes
its text directly, in one pass and without building anything. A function becomes its name,
`undefined` becomes null, and so does a float that is not finite.

* `Number.display` is the text of a number for people.
-/

namespace TableMarkup

namespace Number

def toJson : Number → Json
  | .signed n => .number (.integer (.ofInt64 n))
  | .unsigned n => .number (.integer (.ofUInt64 n))
  | .float x => if Decimal.isFinite x then .number (.float x) else .null

def serialized : Number → List Char
  | .signed n => Text.integer n.toInt
  | .unsigned n => Text.digits n.toNat
  | .float x =>
    if Decimal.isFinite x then Decimal.Layout.json.render x else ['n', 'u', 'l', 'l']

def display : Number → List Char
  | .signed n => Text.integer n.toInt
  | .unsigned n => Text.digits n.toNat
  | .float x => Decimal.display x

end Number

namespace Value

mutual
def toJson : Value → Json
  | .undefined => .null
  | .null => .null
  | .bool b => .bool b
  | .number n => n.toJson
  | .string s => .string s
  | .json j => j
  | .function f _ => .string f.name
  | .object members => .object (membersToJson members)

def membersToJson : List (String × Value) → List (String × Json)
  | [] => []
  | (k, v) :: rest => (k, toJson v) :: membersToJson rest
end

mutual
def serialized : Value → List Char
  | .undefined => ['n', 'u', 'l', 'l']
  | .null => ['n', 'u', 'l', 'l']
  | .bool b => (Json.bool b).compact
  | .number n => n.serialized
  | .string s => Json.quoted s
  | .json j => j.compact
  | .function f _ => Json.quoted f.name
  | .object members => '\x7b' :: serializedMembers true members

/-- The members with the commas between them, and the closing brace. -/
def serializedMembers (first : Bool) : List (String × Value) → List Char
  | [] => ['\x7d']
  | (k, v) :: rest =>
    (if first then [] else [',']) ++ Json.quoted k ++ ':' :: serialized v ++
      serializedMembers false rest
end

/-- How a function is shown in messages: by its name and the number of its members. -/
def describeFunction? : Value → Option String
  | .function f members =>
    some (String.ofList ("Function \x7b name: ".toList ++ Text.debugQuoted f.name ++
      ", members: ".toList ++ Text.digits members.length ++ " \x7d".toList))
  | _ => none

end Value

end TableMarkup
