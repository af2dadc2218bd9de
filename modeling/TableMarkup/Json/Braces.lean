import TableMarkup.Json.Quoted

/-!
# Arrays and objects of ready-made text

What is written member by member, in an order of its own, is put between brackets here.

* `bracketed` makes an array of texts, `braced` an object of named texts.
-/

namespace TableMarkup.Json

def separated : List (List Char) → List Char
  | [] => []
  | [last] => last
  | first :: second :: rest => first ++ ',' :: separated (second :: rest)

def bracketed (items : List (List Char)) : List Char :=
  '[' :: separated items ++ [']']

def namedMember (name : String) (value : List Char) : List Char :=
  quoted name ++ ':' :: value

def braced (members : List (List Char)) : List Char :=
  '\x7b' :: separated members ++ ['\x7d']

end TableMarkup.Json
