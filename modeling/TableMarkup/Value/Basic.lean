import TableMarkup.Json.Basic
import TableMarkup.Members

/-!
# Values

A value is what an attribute stands for: a scalar, structured JSON, or a reference to something that
the host owns, an object or a function. A function is known by its handle; what it does is the
host's business (see `TableMarkup.Resolution.Host`).

* `Value.ofJson` and `Value.toJson` convert from and to JSON.
* `Value.member` looks a member up; arrays take their index.
* `Value.beq` is equality as the host sees it: two functions are equal if they are one function
  under one name.
-/

namespace TableMarkup

/-- A function of the host, under the name that it was registered with. -/
structure Callable where
  handle : Nat
  name : String
deriving DecidableEq

inductive Number where
  | signed (n : Int64)
  | unsigned (n : UInt64)
  | float (x : Float)

inductive Value where
  /-- Nothing was found. -/
  | undefined
  | null
  | bool (b : Bool)
  | number (n : Number)
  | string (s : String)
  /-- Structured JSON. -/
  | json (j : Json)
  /-- A function of the host, which may have members of its own. -/
  | function (f : Callable) (members : List (String × Value))
  | object (members : List (String × Value))
deriving Inhabited

namespace Number

/-- Numbers are equal if they are of one kind and equal as such. -/
def beq : Number → Number → Bool
  | .signed a, .signed b => a = b
  | .unsigned a, .unsigned b => a = b
  | .float x, .float y => x == y
  | _, _ => false

def ofWideInt (n : WideInt) : Number :=
  if n.val < 0x8000000000000000 then .signed (Int64.ofInt n.val) else .unsigned (UInt64.ofNat n.val.toNat)

/-- An unsigned integer is kept as a signed one where it can be. -/
def ofUInt64 (n : UInt64) : Number :=
  ofWideInt (WideInt.ofUInt64 n)

def ofNumeral : Numeral → Number
  | .integer n => ofWideInt n
  | .float x => .float x

def toFloat : Number → Float
  | .signed n => n.toFloat
  | .unsigned n => n.toFloat
  | .float x => x

end Number

namespace Value

mutual
/-- Equality of values. Members of functions do not count. -/
def beq : Value → Value → Bool
  | .undefined, .undefined => true
  | .null, .null => true
  | .bool a, .bool b => a = b
  | .number a, .number b => a.beq b
  | .string a, .string b => a = b
  | .json a, .json b => a.beq b
  -- Two objects are compared member by member, two functions by what is called.
  | .function f _, .function g _ => f = g
  | .object a, .object b => beqMembers a b
  | _, _ => false

def beqMembers : List (String × Value) → List (String × Value) → Bool
  | [], [] => true
  | (k, a) :: as, (l, b) :: bs => k = l && beq a b && beqMembers as bs
  | _, _ => false
end

/-- The value of a JSON value: scalars are unpacked, arrays and objects stay JSON. -/
def ofJson : Json → Value
  | .null => .null
  | .bool b => .bool b
  | .number n => .number (.ofNumeral n)
  | .string s => .string s
  | .array items => .json (.array items)
  | .object members => .json (.object members)

def ofOption (v : Option Value) : Value :=
  v.getD .undefined

def isUndefined : Value → Bool
  | .undefined => true
  | _ => false

def isString : Value → Bool
  | .string _ => true
  | _ => false

def isFunction : Value → Bool
  | .function _ _ => true
  | _ => false

/-- Whether members can be looked up: in host objects, functions, and JSON arrays and objects. -/
def isObjectLike : Value → Bool
  | .object _ => true
  | .function _ _ => true
  | .json (.array _) => true
  | .json (.object _) => true
  | _ => false

def text? : Value → Option String
  | .string s => some s
  | _ => none

def bool? : Value → Option Bool
  | .bool b => some b
  | _ => none

def number? : Value → Option Number
  | .number n => some n
  | _ => none

/-- The position that a member name stands for in an array: digits of a number of 64 bits, after at most
one plus sign. -/
def index? (name : String) : Option Nat :=
  Text.unsigned? Text.wordSize name.toList

/-- The member of a name, or `undefined` if there is none. -/
def member (v : Value) (name : String) : Value :=
  match v with
  | .object members => ofOption (Members.get? name members)
  | .function _ members => ofOption (Members.get? name members)
  | .json (.object members) => ofOption ((Members.get? name members).map ofJson)
  -- Arrays have no members but their items.
  | .json (.array items) => ofOption (((index? name).bind (items[·]?)).map ofJson)
  | _ => .undefined

def kind : Value → String
  | .undefined => "undefined"
  | .null => "null"
  | .bool _ => "bool"
  | .number _ => "number"
  | .string _ => "string"
  | .json _ => "json"
  | .function _ _ => "function"
  | .object _ => "object"

end Value

end TableMarkup
