import TableMarkup.Decimal.Layout
import TableMarkup.Decimal.Reading
import TableMarkup.Text.Hex
import TableMarkup.Text.Letters

/-!
# Texts that mean something else

In YAML a text without quotes may stand for null, a truth value or a number. A text that is to be
read as text has to be quoted if it looks like one of these.

* `standsForOther` decides about a text.
-/

namespace TableMarkup.Yaml

def nulls : List String := ["", "~", "null", "Null", "NULL"]

def truths : List String := ["true", "True", "TRUE", "false", "False", "FALSE"]

/-- The texts of the floats that are not finite, after at most one plus sign where one may stand. -/
def unboundedFloats : List String :=
  [".inf", ".Inf", ".INF", "+.inf", "+.Inf", "+.INF", "-.inf", "-.Inf", "-.INF",
    ".nan", ".NaN", ".NAN"]

/-- A number in digits of a base, if there is at least one and all are below the base. -/
def ofBase? (base : Nat) (cs : List Char) : Option Nat :=
  if cs.isEmpty then none
  else (cs.mapM fun c => (Text.hexValue? c).filter (· < base)).map fun ds =>
    ds.foldl (fun n d => base * n + d) 0

/-- The digits after the mark of a base, with the base. -/
def based? : List Char → Option (Nat × List Char)
  | '0' :: 'x' :: rest => some (16, rest)
  | '0' :: 'o' :: rest => some (8, rest)
  | '0' :: 'b' :: rest => some (2, rest)
  | _ => none

/-- Whether a text is an integer of base 16, 8 or 2 in the range of 128 bits. -/
def isBasedInteger (cs : List Char) : Bool :=
  let isBelow (bound : Nat) (body : List Char) : Bool :=
    match based? body with
    | some (base, rest) => (ofBase? base rest).any (· < bound)
    | none => false
  match cs with
  -- Negative integers reach down to the least signed one of 128 bits.
  | '-' :: body => isBelow (Nat.pow 2 127 + 1) body
  | '+' :: body => isBelow (Nat.pow 2 128) body
  | body => isBelow (Nat.pow 2 128) body

def unsigned : List Char → List Char
  | '+' :: rest => rest
  | '-' :: rest => rest
  | cs => cs

/-- Whether a text has the digits of a number, but with zeros in front of them. -/
def isPadded (cs : List Char) : Bool :=
  match unsigned cs with
  | '0' :: c :: rest => (c :: rest).all fun c => (Text.digit? c).isSome
  | _ => false

def isDecimal (cs : List Char) : Bool :=
  let body := match cs with
    | '+' :: '+' :: _ => []
    | '+' :: '-' :: _ => []
    | '+' :: rest => rest
    | _ => cs
  (Decimal.number? body).any Decimal.isFinite

/-- Whether a text without quotes would not be read as that text. -/
def standsForOther (text : String) : Bool :=
  nulls.contains text || truths.contains text || unboundedFloats.contains text ||
    isBasedInteger text.toList || isPadded text.toList || isDecimal text.toList

end TableMarkup.Yaml
