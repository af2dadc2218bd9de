import TableMarkup.Decimal.Reading
import TableMarkup.Json.Basic

/-!
# Reading numbers

A number is read one character at a time. `Draft` is what has been read so far; `Draft.push` says
whether the next character goes on with the number, comes after it, or spoils it; `Draft.value?` is
the number that was written, if it is in range.
-/

namespace TableMarkup.Numeral

inductive Stage where
  | sign
  /-- After a zero in front, which no digit may follow. -/
  | zero
  | whole
  /-- After the point, where a digit has to follow. -/
  | point
  | fraction
  | mark
  /-- After the sign of the exponent, where a digit has to follow. -/
  | markSign
  | exponent
deriving DecidableEq

/-- A number that is being read. Digits are kept last first. -/
structure Draft where
  stage : Stage
  negative : Bool
  whole : List Nat
  fraction : List Nat
  markNegative : Bool
  exponent : List Nat

/-- What a further character means to a number that is being read. -/
inductive Push where
  | more (d : Draft)
  | after
  | wrong

def Draft.start? (c : Char) : Option Draft :=
  if c = '-' then some ⟨.sign, true, [], [], false, []⟩
  else (Text.digit? c).map fun d =>
    ⟨if d = 0 then .zero else .whole, false, [d], [], false, []⟩

def Draft.complete (d : Draft) : Bool :=
  match d.stage with
  | .zero | .whole | .fraction | .exponent => true
  | .sign | .point | .mark | .markSign => false

/-- A point or an exponent mark where one is allowed; anything else comes after the number. -/
def Draft.pushMark (d : Draft) (pointAllowed : Bool) (c : Char) : Push :=
  if pointAllowed && c = '.' then .more { d with stage := .point }
  else if c = 'e' ∨ c = 'E' then .more { d with stage := .mark }
  else .after

def Draft.push (d : Draft) (c : Char) : Push :=
  match d.stage, Text.digit? c with
  | .sign, some n => .more { d with stage := if n = 0 then .zero else .whole, whole := [n] }
  | .sign, none => .wrong
  -- A zero in front stands alone.
  | .zero, some _ => .wrong
  | .zero, none => d.pushMark true c
  | .whole, some n => .more { d with whole := n :: d.whole }
  | .whole, none => d.pushMark true c
  | .point, some n => .more { d with stage := .fraction, fraction := [n] }
  | .point, none => .wrong
  | .fraction, some n => .more { d with fraction := n :: d.fraction }
  | .fraction, none => d.pushMark false c
  | .mark, some n => .more { d with stage := .exponent, exponent := [n] }
  | .mark, none =>
    if c = '+' then .more { d with stage := .markSign }
    else if c = '-' then .more { d with stage := .markSign, markNegative := true }
    else .wrong
  | .markSign, some n => .more { d with stage := .exponent, exponent := [n] }
  | .markSign, none => .wrong
  | .exponent, some n => .more { d with exponent := n :: d.exponent }
  | .exponent, none => .after

/-- The integer that was written, if it is written as one and in range; minus zero is not. -/
def Draft.integer? (d : Draft) : Option WideInt :=
  if d.fraction.isEmpty && d.exponent.isEmpty then
    let n := Text.ofDigitValues d.whole.reverse
    if d.negative then
      -- The sign of minus zero would be lost in an integer.
      if n = 0 ∨ 0x8000000000000000 < n then none else WideInt.ofInt? (-n)
    else WideInt.ofInt? n
  else none

def Draft.float? (d : Draft) : Option Float :=
  let whole := Decimal.Significand.whole ⟨0, 0⟩ d.whole.reverse
  let significand := whole.fraction d.fraction.reverse
  let exponent : Int := Text.ofDigitValues d.exponent.reverse
  (significand.toFloat? (if d.markNegative then -exponent else exponent)).map fun x =>
    if d.negative then -x else x

/-- The number that was written; `none` if it is too large for a float. -/
def Draft.value? (d : Draft) : Option Numeral :=
  match d.integer? with
  | some n => some (.integer n)
  | none => d.float?.map .float

end TableMarkup.Numeral
