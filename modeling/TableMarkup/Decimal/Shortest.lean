import TableMarkup.Text.Digits

/-!
# The shortest decimal of a binary fraction

A finite floating point number stands for all reals that round to it. Among the decimals in that
interval the shortest is written: the one with the fewest digits, and of those the nearest to the
number.

* `Binary.ofBits` reads significand and exponent off the bits of a number.
* `Binary.inReach` is the interval test, in exact whole-number arithmetic.
* `Binary.shortest` tries the decimal grids from one digit to seventeen; on each grid only the two
  neighbours of the number need a test.
-/

namespace TableMarkup.Decimal

/-- Which neighbour is taken when two decimals of one length are equally near. -/
inductive Tie where
  | toEven
  | up
deriving DecidableEq

/-- The decimal `digits · 10 ^ exponent`. -/
structure Scientific where
  digits : Nat
  exponent : Int
deriving DecidableEq

/-- The binary fraction `significand · 2 ^ exponent`; `narrow` says that the next smaller number of
the format is only half as far away as the next larger one. -/
structure Binary where
  significand : Nat
  exponent : Int
  narrow : Bool
deriving DecidableEq

def Binary.ofBits (bits : UInt64) : Binary :=
  let field := ((bits >>> 52) &&& 0x7FF).toNat
  let fraction := (bits &&& 0xFFFFFFFFFFFFF).toNat
  -- Zero and subnormal numbers have no leading one and are spaced evenly.
  if field = 0 then ⟨fraction, -1074, false⟩
  else ⟨fraction + 0x10000000000000, field - 1075, fraction = 0 && field > 1⟩

/-- A binary fraction measured in steps of a decimal grid: the number is `middle / unit` steps, and
the reals that round to it lie between `low / unit` and `high / unit`. -/
structure Scaled where
  low : Nat
  middle : Nat
  high : Nat
  unit : Nat

def Binary.scaled (b : Binary) (step : Int) : Scaled :=
  let top := Nat.pow 2 (b.exponent - 2).toNat * Nat.pow 10 (-step).toNat
  -- In quarters of the last place, the ends of the interval are whole numbers.
  { low := (4 * b.significand - if b.narrow then 1 else 2) * top
    middle := 4 * b.significand * top
    high := (4 * b.significand + 2) * top
    unit := Nat.pow 2 (2 - b.exponent).toNat * Nat.pow 10 step.toNat }

/-- Whether the grid point rounds to the number. The ends of the interval do so only when the
significand is even, because a tie between two numbers goes to the even one. -/
def Binary.inReach (b : Binary) (s : Scaled) (point : Nat) : Bool :=
  if b.significand % 2 = 0 then s.low ≤ point * s.unit && point * s.unit ≤ s.high
  else s.low < point * s.unit && point * s.unit < s.high

/-- The grid point to write for the number, if one of its neighbours on the grid rounds to it. -/
def Binary.choose (b : Binary) (tie : Tie) (s : Scaled) : Option Nat :=
  let below := s.middle / s.unit
  match b.inReach s below, b.inReach s (below + 1) with
  | false, false => none
  | true, false => some below
  | false, true => some (below + 1)
  | true, true =>
    match compare (2 * s.middle) ((2 * below + 1) * s.unit) with
    | .lt => some below
    | .gt => some (below + 1)
    | .eq => if tie = .toEven ∧ below % 2 = 0 then some below else some (below + 1)

/-- The exponent of the first decimal digit of a number that is not zero. -/
def Binary.leadingExponent (b : Binary) : Int :=
  let s := b.scaled 0
  if s.unit ≤ s.middle then (Text.digits (s.middle / s.unit)).length - 1
  else -(((List.range 330).find? fun k => s.unit ≤ s.middle * Nat.pow 10 k).getD 0 : Nat)

/-- The decimal without the zeros at the end of its digits. -/
def Scientific.trimmed (d : Scientific) : Scientific :=
  if h : d.digits = 0 ∨ d.digits % 10 ≠ 0 then d
  else trimmed ⟨d.digits / 10, d.exponent + 1⟩
termination_by d.digits
decreasing_by omega

/-- The shortest decimal that rounds to the number. Seventeen digits always suffice. -/
def Binary.shortest (b : Binary) (tie : Tie) : Scientific :=
  if b.significand = 0 then ⟨0, 0⟩
  else
    let leading := b.leadingExponent
    -- The first grid with a hit has the fewest digits.
    let hit := (List.range 17).findSome? fun (n : Nat) =>
      (b.choose tie (b.scaled (leading - n))).map fun point => Scientific.mk point (leading - n)
    (hit.getD ⟨0, 0⟩).trimmed

end TableMarkup.Decimal
