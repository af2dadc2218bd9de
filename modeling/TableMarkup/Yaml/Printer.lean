import TableMarkup.Json.Basic
import TableMarkup.Yaml.Scalar

/-!
# Writing YAML

A JSON value is written in YAML with one item or member a line. Members are indented by two columns
below their key, items stand below the key of their array; empty arrays and objects stay on the line
of their key.

```text
name: text
list:
- 1
- inner: true
```

* `Json.yaml` writes a value.
-/

namespace TableMarkup

namespace Json

/-- The text of a value that takes one line or is a text, and the end of its last line. -/
def yamlScalar (indent : Nat) : Json → List Char
  | .null => "null\n".toList
  | .bool b => if b then "true\n".toList else "false\n".toList
  | .number (.integer n) => Text.integer n.val ++ ['\n']
  | .number (.float x) => Decimal.Layout.yaml.render x ++ ['\n']
  | .string s => Yaml.textLine indent s
  | .array _ => "[]\n".toList
  | .object _ => "\x7b\x7d\n".toList

def columns (n : Nat) : List Char :=
  List.replicate n ' '

/-- Whether a name can be written before its colon: it takes one line of at most 128 bytes. -/
def isShortKey (name : String) : Bool :=
  !(name.toList.any Yaml.isBreak) && name.utf8ByteSize ≤ 128

/-- A name and its colon. A name that is no short key stands after a question mark, and its colon on
the next line. -/
def yamlKey (indent : Nat) (name : String) : List Char :=
  if isShortKey name then (Yaml.Form.of name).render (indent + 2) name ++ [':']
  else '?' :: ' ' :: Yaml.textLine (indent + 2) name ++ columns indent ++ [':']

mutual
/-- A value that begins in column `indent` of its first line. -/
def yamlAt (indent : Nat) : Json → List Char
  | .array (j :: js) => '-' :: ' ' :: yamlAt (indent + 2) j ++ yamlItems indent js
  | .object ((k, j) :: ms) =>
    yamlKey indent k ++ yamlAfterKey indent (isShortKey k) j ++ yamlMembers indent ms
  | other => yamlScalar (max 2 indent) other

def yamlItems (indent : Nat) : List Json → List Char
  | [] => []
  | j :: js => columns indent ++ '-' :: ' ' :: yamlAt (indent + 2) j ++ yamlItems indent js

def yamlMembers (indent : Nat) : List (String × Json) → List Char
  | [] => []
  | (k, j) :: ms =>
    columns indent ++ yamlKey indent k ++ yamlAfterKey indent (isShortKey k) j ++
      yamlMembers indent ms

/-- A value after the colon of its key, which begins in column `indent`. After a short key, items and
members begin on the next line. -/
def yamlAfterKey (indent : Nat) (short : Bool) : Json → List Char
  -- The items of a short key begin in its own column, not further in.
  | .array (j :: js) =>
    if short then
      '\n' :: columns indent ++ '-' :: ' ' :: yamlAt (indent + 2) j ++ yamlItems indent js
    else ' ' :: '-' :: ' ' :: yamlAt (indent + 4) j ++ yamlItems (indent + 2) js
  | .object ((k, j) :: ms) =>
    (if short then '\n' :: columns (indent + 2) else [' ']) ++ yamlKey (indent + 2) k ++
      yamlAfterKey (indent + 2) (isShortKey k) j ++ yamlMembers (indent + 2) ms
  | other => ' ' :: yamlScalar (indent + 2) other
end

def yaml (j : Json) : List Char :=
  yamlAt 0 j

end Json

end TableMarkup
