import TableMarkup.Decimal.Shortest

/-!
# Layouts of floating point text

A layout fixes everything about the text of a float that its value leaves open: when an exponent is
used, how it is written, and whether a whole number keeps its `.0`.

* `Layout.render` writes a finite float in a layout.
* `plain`, `json` and `yaml` are the three layouts in use.
-/

namespace TableMarkup.Decimal

structure Layout where
  tie : Tie
  /-- The exponents of the first digit for which no exponent is written; `none` for all. -/
  positional : Option (Int × Int)
  /-- Whether a whole number ends in `.0`. -/
  keepsPoint : Bool
  plusSign : Bool

/-- The text of a number for people: never an exponent, no `.0`. -/
def Layout.plain : Layout :=
  { tie := .up, positional := none, keepsPoint := false, plusSign := false }

/-- The text of a JSON number: `0.00001`, `1000000000000000.0`, `1e+16`, `1e-6`. -/
def Layout.json : Layout :=
  { tie := .toEven, positional := some (-5, 15), keepsPoint := true, plusSign := true }

/-- The text of a YAML number: as in JSON, but without the plus sign. -/
def Layout.yaml : Layout :=
  { Layout.json with plusSign := false }

def isFinite (x : Float) : Bool :=
  (x.toBits >>> 52) &&& 0x7FF != 0x7FF

def isNegative (x : Float) : Bool :=
  x.toBits >>> 63 != 0

/-- The digits with the decimal point where it belongs, and no exponent. -/
def Layout.renderPositional (l : Layout) (digits : List Char) (exponent : Int) : List Char :=
  if 0 ≤ exponent then
    digits ++ List.replicate exponent.toNat '0' ++ if l.keepsPoint then ['.', '0'] else []
  else
    let point := (-exponent).toNat
    if point < digits.length then
      digits.take (digits.length - point) ++ '.' :: digits.drop (digits.length - point)
    else
      '0' :: '.' :: (List.replicate (point - digits.length) '0' ++ digits)

/-- One digit, the rest after a point, and the exponent of the first digit. -/
def Layout.renderScientific (l : Layout) (digits : List Char) (leading : Int) : List Char :=
  let mantissa := match digits with
    | first :: second :: rest => first :: '.' :: second :: rest
    | short => short
  mantissa ++ 'e' :: ((if l.plusSign && 0 ≤ leading then ['+'] else []) ++ Text.integer leading)

def Layout.render (l : Layout) (x : Float) : List Char :=
  let shortest := (Binary.ofBits x.toBits).shortest l.tie
  let digits := Text.digits shortest.digits
  -- The place of the first digit decides whether an exponent is written.
  let leading := shortest.exponent + digits.length - 1
  let isPositional := match l.positional with
    | none => true
    | some (low, high) => low ≤ leading && leading ≤ high
  (if isNegative x then ['-'] else []) ++
    if isPositional then l.renderPositional digits shortest.exponent
    else l.renderScientific digits leading

def display (x : Float) : List Char :=
  if isFinite x then Layout.plain.render x
  else if x.isNaN then "NaN".toList
  else if isNegative x then "-inf".toList else "inf".toList

end TableMarkup.Decimal
