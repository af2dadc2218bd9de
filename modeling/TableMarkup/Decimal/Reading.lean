import TableMarkup.Text.Digits

/-!
# From decimal text to floats

Two ways of reading a decimal are in use. JSON numbers gather their digits into one 64-bit
significand and scale it by a power of ten in floating point (`ofSignificand?`). Elsewhere the
nearest float is wanted (`nearest`, `number?`).
-/

namespace TableMarkup.Decimal

def powerOfTen (n : Nat) : Float :=
  Float.ofScientific 1 false n

/-- The float scaled by `10 ^ exponent`: one multiplication or division if a power of ten in the
range of floats suffices, else divisions by `1e308` first. A result beyond the range is `none`. -/
def scale (x : Float) (exponent : Int) : Option Float :=
  if 0 ≤ exponent then
    if exponent ≤ 308 then
      let y := x * powerOfTen exponent.toNat
      if y.isInf then none else some y
    else if x == 0.0 then some x else none
  else if -308 ≤ exponent then some (x / powerOfTen (-exponent).toNat)
  else if x == 0.0 then some x
  -- Every division rounds, so the order of the divisions is part of the result.
  else scale (x / powerOfTen 308) (exponent + 308)
termination_by (-exponent).toNat
decreasing_by omega

/-- The digits of a number gathered into a significand below `2 ^ 64` and a decimal exponent. -/
structure Significand where
  value : Nat
  exponent : Int

/-- Whether one more digit still fits into 64 bits. -/
def Significand.fits (s : Significand) (d : Nat) : Bool :=
  10 * s.value + d < Text.wordSize

/-- Gathers digits before the point. From the first digit on that does not fit, digits only raise
the exponent. -/
def Significand.whole : Significand → List Nat → Significand
  | s, [] => s
  | s, d :: ds =>
    if s.fits d then whole ⟨10 * s.value + d, 0⟩ ds
    else ⟨s.value, (d :: ds).length⟩

/-- Gathers digits after the point. From the first digit on that does not fit, digits are dropped. -/
def Significand.fraction : Significand → List Nat → Significand
  | s, [] => s
  | s, d :: ds =>
    if s.fits d then fraction ⟨10 * s.value + d, s.exponent - 1⟩ ds else s

/-- The float of a significand and a written exponent, or `none` beyond the range of floats. An
exponent of more than 31 bits is not added up: the result is zero or out of range. -/
def Significand.toFloat? (s : Significand) (exponent : Int) : Option Float :=
  if exponent.natAbs < 0x80000000 then
    scale (UInt64.ofNat s.value).toFloat (s.exponent + exponent)
  else if s.value ≠ 0 ∧ 0 < exponent then none
  else some 0.0

/-- The float nearest to `digits · 10 ^ exponent`; infinite beyond the range of floats. -/
def nearest (digits : Nat) (exponent : Int) : Float :=
  let size := (Text.digits digits).length + exponent
  -- Far beyond the range of floats the digits do not matter.
  if digits = 0 ∨ size < -400 then 0.0
  else if 400 < size then 1.0 / 0.0
  else Float.ofScientific digits (exponent < 0) exponent.natAbs

def exponent? : List Char → Option Int
  | [] => some 0
  | mark :: '-' :: ds =>
    if mark == 'e' || mark == 'E' then (Text.ofDigits? ds).map fun n => -(n : Int) else none
  | mark :: '+' :: ds =>
    if mark == 'e' || mark == 'E' then (Text.ofDigits? ds).map Int.ofNat else none
  | mark :: ds =>
    if mark == 'e' || mark == 'E' then (Text.ofDigits? ds).map Int.ofNat else none

/-- An unsigned decimal number: digits with at most one point among or around them, and perhaps an
exponent. -/
def magnitude? (cs : List Char) : Option Float := do
  let isDigit : Char → Bool := fun c => (Text.digit? c).isSome
  let whole := cs.takeWhile isDigit
  let afterWhole := cs.dropWhile isDigit
  let (fraction, rest) := match afterWhole with
    | '.' :: tail => (tail.takeWhile isDigit, tail.dropWhile isDigit)
    | _ => ([], afterWhole)
  let digits ← Text.ofDigits? (whole ++ fraction)
  let exponent ← exponent? rest
  return nearest digits (exponent - fraction.length)

/-- A decimal number with at most one sign in front. -/
def number? : List Char → Option Float
  | '-' :: cs => (magnitude? cs).map fun x => -x
  | '+' :: cs => magnitude? cs
  | cs => magnitude? cs

end TableMarkup.Decimal
