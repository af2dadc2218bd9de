import TableMarkup.Decimal.Layout
import TableMarkup.Json.Basic
import TableMarkup.Json.Quoted

/-!
# Writing JSON

* `Json.compact` writes a value without blanks.
* `Json.pretty` writes one item or member a line, indented by two spaces a level; empty arrays and
  objects stay on their line.
-/

namespace TableMarkup

def Numeral.render : Numeral → List Char
  | .integer n => Text.integer n.val
  | .float x => Decimal.Layout.json.render x

namespace Json

mutual
def compact : Json → List Char
  | .null => ['n', 'u', 'l', 'l']
  | .bool true => ['t', 'r', 'u', 'e']
  | .bool false => ['f', 'a', 'l', 's', 'e']
  | .number n => n.render
  | .string s => quoted s
  | .array [] => ['[', ']']
  | .array (j :: js) => '[' :: compact j ++ compactItems js
  | .object [] => ['\x7b', '\x7d']
  | .object ((k, j) :: ms) => '\x7b' :: quoted k ++ ':' :: compact j ++ compactMembers ms

def compactItems : List Json → List Char
  | [] => [']']
  | j :: js => ',' :: compact j ++ compactItems js

def compactMembers : List (String × Json) → List Char
  | [] => ['\x7d']
  | (k, j) :: ms => ',' :: quoted k ++ ':' :: compact j ++ compactMembers ms
end

def freshLine (level : Nat) : List Char :=
  '\n' :: List.replicate (2 * level) ' '

mutual
/-- The value with one item or member a line; `level` is the level of its closing bracket. -/
def prettyAt (level : Nat) : Json → List Char
  | .array (j :: js) =>
    '[' :: freshLine (level + 1) ++ prettyAt (level + 1) j ++ prettyItems level js
  | .object ((k, j) :: ms) =>
    '\x7b' :: freshLine (level + 1) ++ quoted k ++ ':' :: ' ' :: prettyAt (level + 1) j ++
      prettyMembers level ms
  | other => compact other

/-- The items after the first, and the closing bracket on a line of its own. -/
def prettyItems (level : Nat) : List Json → List Char
  | [] => freshLine level ++ [']']
  | j :: js => ',' :: freshLine (level + 1) ++ prettyAt (level + 1) j ++ prettyItems level js

/-- The members after the first, and the closing brace on a line of its own. -/
def prettyMembers (level : Nat) : List (String × Json) → List Char
  | [] => freshLine level ++ ['\x7d']
  | (k, j) :: ms =>
    ',' :: freshLine (level + 1) ++ quoted k ++ ':' :: ' ' :: prettyAt (level + 1) j ++
      prettyMembers level ms
end

def pretty (j : Json) : List Char :=
  prettyAt 0 j

def text (j : Json) : String :=
  String.ofList j.compact

end Json

end TableMarkup
