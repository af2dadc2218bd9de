import TableMarkup.Proofs.Json.Written
import TableMarkup.Value.Printer

/-!
# JSON as values and back

What a JSON value becomes is a value with the same JSON in it. Integers have two forms as values, by
their sign and size, and both of them stand for the integer that they were made from.

* `Json.Finite`: no number in the value is an infinity or a NaN. A JSON value that was read or built by
  the rules of JSON has none, while a value would write one as null.
* `Value.ofJson_inj`: different JSON values become different values.
* `Value.toJson_ofJson`: the JSON of the value of a JSON value is that JSON value.
* `Value.serialized_eq_compact`: the text that a value is written as, in one pass, is the text of its
  JSON.
-/

namespace TableMarkup

/-! ## Integers -/

namespace Number

/-- Both forms of an integer are the integer again. -/
theorem toJson_ofWideInt (w : WideInt) : (ofWideInt w).toJson = .number (.integer w) := by
  have hmin := w.min_le
  have hmax := w.lt_max
  unfold ofWideInt
  split
  -- The form of 64 bits with a sign, which has this integer in its range.
  · have hw : WideInt.ofInt64 (Int64.ofInt w.val) = w := by
      rw [WideInt.ofInt64, WideInt.mk.injEq]
      exact Int64.toInt_ofInt_of_le (by omega) (by omega)
    show Json.number (.integer (.ofInt64 (Int64.ofInt w.val))) = _
    rw [hw]
  -- The form without a sign, for what is larger than that.
  · have hw : WideInt.ofUInt64 (UInt64.ofNat w.val.toNat) = w := by
      rw [WideInt.ofUInt64, WideInt.mk.injEq, UInt64.toNat_ofNat']
      omega
    show Json.number (.integer (.ofUInt64 (UInt64.ofNat w.val.toNat))) = _
    rw [hw]

/-- An integer does not become a float. -/
theorem float_ne_ofWideInt (w : WideInt) (x : Float) : Number.float x ≠ ofWideInt w := by
  unfold ofWideInt
  split <;> nofun

/-- Different numbers in JSON become different numbers. -/
theorem ofNumeral_inj {m n : Numeral} : ofNumeral m = ofNumeral n ↔ m = n := by
  refine ⟨fun h => ?_, congrArg ofNumeral⟩
  match m, n with
  | .integer v, .integer w =>
    -- Two integers are told apart by their JSON.
    have hjson := congrArg toJson h
    rw [ofNumeral, ofNumeral, toJson_ofWideInt, toJson_ofWideInt] at hjson
    exact Json.number.inj hjson
  | .integer v, .float y => exact absurd h.symm (float_ne_ofWideInt v y)
  | .float x, .integer w => exact absurd h (float_ne_ofWideInt w x)
  | .float x, .float y => exact congrArg Numeral.float (Number.float.inj h)

/-- The text of a number is the text of its JSON. -/
theorem serialized_eq_compact (n : Number) : n.serialized = n.toJson.compact := by
  cases n with
  | signed n => rw [toJson, Json.compact]; rfl
  | unsigned n =>
    rw [toJson, Json.compact]
    show Text.digits n.toNat = Text.integer n.toNat
    rw [Text.integer, if_neg (by omega), Int.natAbs_natCast]
  | float x =>
    rw [serialized, toJson]
    split <;> rw [Json.compact]
    rfl

end Number

/-! ## Values -/

/-- A number that is a float is finite. -/
def Json.IsFinite (j : Json) : Prop :=
  ∀ x, j = .number (.float x) → Decimal.isFinite x = true

/-- No number in the value is an infinity or a NaN. -/
abbrev Json.Finite : Json → Prop :=
  Everywhere IsFinite

namespace Value

/-- A JSON value is the JSON of its value. -/
theorem toJson_ofJson {j : Json} (h : j.IsFinite) : toJson (ofJson j) = j := by
  cases j with
  | number n =>
    cases n with
    | integer w => exact Number.toJson_ofWideInt w
    | float x =>
      have hfinite : Decimal.isFinite x = true := h x rfl
      show (if Decimal.isFinite x then Json.number (.float x) else .null) = _
      rw [if_pos hfinite]
  | _ => rfl

/-- Different JSON values become different values. -/
theorem ofJson_inj {j k : Json} : ofJson j = ofJson k ↔ j = k := by
  refine ⟨fun h => ?_, congrArg ofJson⟩
  cases j <;> cases k <;> first
    | rfl
    | exact congrArg Json.number (Number.ofNumeral_inj.mp (Value.number.inj h))
    | (cases h; rfl)
    | cases h

mutual
/-- To write a value is to write its JSON. -/
theorem serialized_eq_compact (v : Value) : v.serialized = v.toJson.compact := by
  match v with
  | .undefined | .null => rw [serialized, toJson, Json.compact]
  | .bool b => rw [serialized, toJson]
  | .number n =>
    rw [serialized, toJson]
    exact n.serialized_eq_compact
  | .string s => rw [serialized, toJson, Json.compact]
  | .json j => rw [serialized, toJson]
  | .function f members => rw [serialized, toJson, Json.compact]
  | .object [] => rw [serialized, toJson, membersToJson, Json.compact, serializedMembers]
  | .object ((name, v) :: rest) =>
    rw [serialized, toJson, membersToJson, Json.compact, serializedMembers, serialized_eq_compact v,
      serializedMembers_eq_compactMembers rest]
    rfl

/-- The members behind the first one are written with a comma in front of each. -/
theorem serializedMembers_eq_compactMembers (members : List (String × Value)) :
    serializedMembers false members = Json.compactMembers (membersToJson members) := by
  match members with
  | [] => rw [serializedMembers, membersToJson, Json.compactMembers]
  | (name, v) :: rest =>
    rw [serializedMembers, membersToJson, Json.compactMembers, serialized_eq_compact v,
      serializedMembers_eq_compactMembers rest]
    rfl
end

end Value

end TableMarkup
