import TableMarkup.Text.Digits
import TableMarkup.Members

/-!
# JSON values

A JSON number is an integer, if it is written as one and fits into 64 bits with or without a sign,
and a float otherwise. The members of an object are kept in the order of their names.

* `WideInt` is the type of the integers that keep their precision.
* `Json.beq` compares two values; an integer is never equal to a float.
-/

namespace TableMarkup

/-- An integer that fits into 64 bits, with a sign or without. -/
structure WideInt where
  val : Int
  min_le : -0x8000000000000000 ≤ val
  lt_max : val < 0x10000000000000000
deriving DecidableEq

def WideInt.ofInt? (n : Int) : Option WideInt :=
  if h : -0x8000000000000000 ≤ n ∧ n < 0x10000000000000000 then some ⟨n, h.1, h.2⟩ else none

/-- A natural number below `2 ^ 64`. -/
def WideInt.ofUInt64 (n : UInt64) : WideInt :=
  ⟨n.toNat, by omega, by have := n.toNat_lt; omega⟩

/-- A signed 64-bit integer. -/
def WideInt.ofInt64 (n : Int64) : WideInt :=
  ⟨n.toInt, n.le_toInt, by have := n.toInt_lt; omega⟩

inductive Numeral where
  | integer (n : WideInt)
  | float (x : Float)

/-- Integers are compared with integers and floats with floats. -/
def Numeral.beq : Numeral → Numeral → Bool
  | .integer m, .integer n => m = n
  | .float x, .float y => x == y
  | _, _ => false

inductive Json where
  | null
  | bool (b : Bool)
  | number (n : Numeral)
  | string (s : String)
  | array (items : List Json)
  | object (members : List (String × Json))
deriving Inhabited

namespace Json

mutual
def beq : Json → Json → Bool
  | .null, .null => true
  | .bool a, .bool b => a = b
  | .number a, .number b => a.beq b
  | .string a, .string b => a = b
  | .array a, .array b => beqItems a b
  | .object a, .object b => beqMembers a b
  | _, _ => false

def beqItems : List Json → List Json → Bool
  | [], [] => true
  | a :: as, b :: bs => beq a b && beqItems as bs
  | _, _ => false

def beqMembers : List (String × Json) → List (String × Json) → Bool
  | [], [] => true
  | (k, a) :: as, (l, b) :: bs => k = l && beq a b && beqMembers as bs
  | _, _ => false
end

/-- A natural number, if it fits into 64 bits. -/
def ofNat (n : Nat) : Json :=
  match WideInt.ofInt? n with
  | some w => .number (.integer w)
  | none => .number (.float n.toFloat)

/-- An object with the given members; the last of each name counts. -/
def ofMembers (entries : List (String × Json)) : Json :=
  .object (Members.ofList entries)

end Json

end TableMarkup
