/-!
# Decimal digits

Whole numbers as written in ASCII digits.

* `digits n` are the digits of `n`, most significant first, without leading zeros.
* `ofDigits?` reads one or more digits; `ofDigits?_digits` says that it reads back what `digits`
  writes.
* `unsigned?` reads a number that may carry a plus sign and has to stay below a bound.
-/

namespace TableMarkup.Text

def digitChar (d : Nat) : Char :=
  Char.ofNat (48 + d)

def digit? (c : Char) : Option Nat :=
  if '0' ≤ c ∧ c ≤ '9' then some (c.toNat - 48) else none

/-- The decimal digits of a number, most significant first. -/
def digits (n : Nat) : List Char :=
  if n < 10 then [digitChar n] else digits (n / 10) ++ [digitChar (n % 10)]
termination_by n

/-- The number that a list of digit values stands for, most significant first. -/
def ofDigitValues (ds : List Nat) : Nat :=
  ds.foldl (fun n d => 10 * n + d) 0

/-- The number that one or more ASCII digits stand for; leading zeros are allowed. -/
def ofDigits? (cs : List Char) : Option Nat :=
  if cs.isEmpty then none else (cs.mapM digit?).map ofDigitValues

/-- A number below `bound`, written in digits after at most one plus sign. -/
def unsigned? (bound : Nat) (cs : List Char) : Option Nat :=
  let body := match cs with
    | '+' :: rest => rest
    | _ => cs
  (ofDigits? body).filter (· < bound)

/-- The number of values that 64 bits can take. -/
abbrev wordSize : Nat := 0x10000000000000000

/-- The decimal text of an integer, with a minus sign below zero. -/
def integer (n : Int) : List Char :=
  if n < 0 then '-' :: digits n.natAbs else digits n.natAbs

theorem digit?_digitChar {d : Nat} (h : d < 10) : digit? (digitChar d) = some d := by
  have : ∀ d, d < 10 → digit? (digitChar d) = some d := by decide
  exact this d h

theorem digits_ne_nil (n : Nat) : digits n ≠ [] := by
  rw [digits]; split <;> simp

/-- What is written reads as digits, and their values make up the number again. -/
theorem mapM_digit?_digits (n : Nat) :
    ∃ ds, (digits n).mapM digit? = some ds ∧ ofDigitValues ds = n := by
  rw [digits]
  split
  · next h => exact ⟨[n], by simp [digit?_digitChar h], by simp [ofDigitValues]⟩
  · next h =>
    -- The digits before the last are those of a tenth of the number, which carries the recursion.
    obtain ⟨ds, hds, hval⟩ := mapM_digit?_digits (n / 10)
    refine ⟨ds ++ [n % 10], ?_, ?_⟩
    · simp [List.mapM_append, hds, digit?_digitChar (Nat.mod_lt n (by decide : 0 < 10))]
    · simp only [ofDigitValues, List.foldl_append, List.foldl_cons, List.foldl_nil] at hval ⊢
      rw [hval]; omega
termination_by n

theorem ofDigits?_digits (n : Nat) : ofDigits? (digits n) = some n := by
  obtain ⟨ds, hds, hval⟩ := mapM_digit?_digits n
  simp [ofDigits?, digits_ne_nil, hds, hval]

end TableMarkup.Text
