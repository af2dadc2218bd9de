import Mathlib
import TableMarkup.Decimal.Layout

/-!
# Rounding of floats

How far rounding can move a float up. A finite float is a whole mantissa of 53 bits at most, times a
power of two; this power is its last place. A result is rounded to the place at which 53 bits are
left, so that its last place follows from the size of the exact result, and with it whether the
result is finite.

* `Within`, `AtLeast`: numbers with a last place of at most `2 ^ b`, and numbers of at least `2 ^ b`.
* `exists_rounded`: what rounding does to a mantissa and to its place.
* `within_roundWithAccuracy`, `roundWithAccuracy_normal`: how far rounding moves the last place, and
  when it leaves all 53 bits.
* `within_unpack_pack`, `atLeast_unpack_pack`: what is kept when a number is packed into 64 bits.
* `isFinite_mul`, `within_div`, `isFinite_neg`, `within_ofUInt64`: the operations on floats.
-/

namespace TableMarkup.Decimal

open Float.Model (Format totalExponent UnpackedFloat)
open Float.Model.UnpackedFloat

/-! ## Places -/

/-- A number that is zero, or finite with a last place of at most `2 ^ b`. -/
def Within (b : Int) : UnpackedFloat → Prop
  | .zero _ => True
  | .finite _ _ e _ => e ≤ b
  | .infinity _ => False
  | .notANumber => False

/-- A finite number that is at least `2 ^ b`, but for its sign. -/
def AtLeast (b : Int) : UnpackedFloat → Prop
  | .finite _ m e _ => b ≤ m.log2 + e
  | .zero _ => False
  | .infinity _ => False
  | .notANumber => False

variable {f g : UnpackedFloat} {b c : Int}

/-- Such a number is zero or finite. -/
theorem Within.zero_or_finite (h : Within b f) :
    (∃ s, f = .zero s) ∨ ∃ s m e hm, f = .finite s m e hm ∧ e ≤ b := by
  cases f with
  | zero s => exact .inl ⟨s, rfl⟩
  | finite s m e hm => exact .inr ⟨s, m, e, hm, rfl, h⟩
  | infinity s => exact h.elim
  | notANumber => exact h.elim

/-- Such a number is finite and not zero. -/
theorem AtLeast.exists_finite (h : AtLeast b f) :
    ∃ s m e hm, f = .finite s m e hm ∧ b ≤ m.log2 + e := by
  cases f with
  | finite s m e hm => exact ⟨s, m, e, hm, rfl, h⟩
  | zero s => exact h.elim
  | infinity s => exact h.elim
  | notANumber => exact h.elim

instance (b : Int) : (f : UnpackedFloat) → Decidable (Within b f)
  | .zero _ => isTrue trivial
  | .finite _ _ e _ => inferInstanceAs (Decidable (e ≤ b))
  | .infinity _ => isFalse id
  | .notANumber => isFalse id

instance (b : Int) : (f : UnpackedFloat) → Decidable (AtLeast b f)
  | .zero _ => isFalse id
  | .finite _ m e _ => inferInstanceAs (Decidable (b ≤ m.log2 + e))
  | .infinity _ => isFalse id
  | .notANumber => isFalse id

/-- The place to which a number with this mantissa and this last place is rounded: 53 bits are left of
it, or fewer where the smallest place of all is reached first. -/
def roundedPlace (m : Nat) (e : Int) : Int :=
  max (m.log2 + e - 52) (-1074)

/-- The place is the one that the model of floats aims at. -/
theorem targetExponent_eq (m : Nat) (e : Int) :
    Format.binary64.targetExponent (totalExponent m e) = roundedPlace m e := by
  simp only [roundedPlace, Format.targetExponent, totalExponent, Format.mantissaBits,
    Format.minExponent]
  omega

/-! ## Binary logarithms -/

/-- A number below a power of two has a smaller logarithm. -/
theorem log2_le_of_lt {n k : Nat} (h : n < 2 ^ (k + 1)) : n.log2 ≤ k := by
  by_cases hn : n = 0
  · simp [hn]
  · exact Nat.le_of_lt_succ ((Nat.log2_lt hn).mpr h)

theorem log2_mono {m n : Nat} (h : m ≤ n) : m.log2 ≤ n.log2 := by
  simpa only [Nat.log2_eq_log_two] using Nat.log_mono_right h

/-- A shift to the left adds as much to the logarithm as it shifts, at most. -/
theorem log2_shiftLeft_le (m k : Nat) : (m <<< k).log2 ≤ m.log2 + k := by
  refine log2_le_of_lt ?_
  rw [Nat.shiftLeft_eq, Nat.add_right_comm, Nat.pow_add]
  exact Nat.mul_lt_mul_of_pos_right Nat.lt_log2_self (Nat.two_pow_pos k)

/-- The logarithm of a quotient is the difference of the logarithms, at most. -/
theorem log2_div_le {m n : Nat} (hn : n ≠ 0) : (m / n).log2 ≤ m.log2 - n.log2 := by
  refine log2_le_of_lt ?_
  rw [Nat.div_lt_iff_lt_mul (Nat.pos_of_ne_zero hn)]
  calc m < 2 ^ (m.log2 + 1) := Nat.lt_log2_self
    _ ≤ 2 ^ (m.log2 - n.log2 + 1 + n.log2) := Nat.pow_le_pow_right (by decide) (by omega)
    _ = 2 ^ (m.log2 - n.log2 + 1) * 2 ^ n.log2 := Nat.pow_add _ _ _
    _ ≤ 2 ^ (m.log2 - n.log2 + 1) * n := Nat.mul_le_mul_left _ (Nat.log2_self_le hn)

/-- A number that is cut off and rounded up may gain one bit. -/
theorem log2_div_two_pow_succ_le (n k : Nat) : (n / 2 ^ k + 1).log2 ≤ n.log2 - k + 1 := by
  refine log2_le_of_lt ?_
  have hlt : n / 2 ^ k < 2 ^ (n.log2 - k + 1) := by
    rw [Nat.div_lt_iff_lt_mul (Nat.two_pow_pos k), ← Nat.pow_add]
    exact Nat.lt_of_lt_of_le Nat.lt_log2_self (Nat.pow_le_pow_right (by decide) (by omega))
  rw [Nat.pow_succ]
  have := Nat.two_pow_pos (n.log2 - k + 1)
  omega

/-- The first `k + 1` bits of a number that has so many. -/
theorem log2_div_two_pow {n k : Nat} (hn : n ≠ 0) (h : k ≤ n.log2) :
    (n / 2 ^ (n.log2 - k)).log2 = k := by
  have hpos := Nat.two_pow_pos (n.log2 - k)
  have hlow : 2 ^ k ≤ n / 2 ^ (n.log2 - k) := by
    rw [Nat.le_div_iff_mul_le hpos, ← Nat.pow_add, Nat.add_sub_cancel' h]
    exact Nat.log2_self_le hn
  have hhigh : n / 2 ^ (n.log2 - k) < 2 ^ (k + 1) := by
    rw [Nat.div_lt_iff_lt_mul hpos, ← Nat.pow_add,
      show k + 1 + (n.log2 - k) = n.log2 + 1 by omega]
    exact Nat.lt_log2_self
  have hne : n / 2 ^ (n.log2 - k) ≠ 0 := by
    have := Nat.two_pow_pos k
    omega
  exact Nat.le_antisymm (log2_le_of_lt hhigh) ((Nat.le_log2 hne).mpr hlow)

/-! ## Rounding -/

/-- A shift to the right divides the mantissa by a power of two, whatever is kept of the lost
bits. -/
theorem shiftRight_mantissa (em : ExtendedMantissa) (k : Nat) :
    (em >>> k).mantissa = em.mantissa / 2 ^ k := by
  show (k.repeat ExtendedMantissa.shiftRightOne em).mantissa = _
  -- The shift is made bit by bit, so the induction is on the number of bits.
  induction k with
  | zero => exact (Nat.div_one _).symm
  | succ k ih =>
    show (k.repeat ExtendedMantissa.shiftRightOne em).mantissa / 2 = _
    rw [ih, Nat.div_div_eq_div_mul, Nat.pow_succ]

theorem roundedMantissa_le (em : ExtendedMantissa) : em.roundedMantissa ≤ em.mantissa + 1 := by
  obtain ⟨m, round, sticky⟩ := em
  cases round <;> cases sticky <;>
    simp [ExtendedMantissa.roundedMantissa, ExtendedMantissa.accuracy, Accuracy.roundToNearestEven]
  omega

/-- Rounding to the nearest never takes anything off a mantissa that has been cut. -/
theorem le_roundedMantissa (em : ExtendedMantissa) : em.mantissa ≤ em.roundedMantissa := by
  obtain ⟨m, round, sticky⟩ := em
  cases round <;> cases sticky <;>
    simp [ExtendedMantissa.roundedMantissa, ExtendedMantissa.accuracy, Accuracy.roundToNearestEven]

/-- A mantissa that is brought to a place is cut off there, unless its last place is higher
already. -/
theorem shiftToExponent_eq (m : Nat) (e : Int) (a : Accuracy) (t : Int) :
    (shiftToExponent m e a t).1.mantissa = m / 2 ^ (t - e).toNat ∧
      (shiftToExponent m e a t).2 = max e t := by
  constructor
  · rw [shiftToExponent, shiftRight_mantissa]
    cases a with
    | exact => rfl
    | inexact o => cases o <;> rfl
  · simp only [shiftToExponent]
    omega

/-- Rounding is cutting off and perhaps adding one, at the place for the number. This may give one bit
too many, which is cut off then. -/
theorem exists_rounded (s : Sign) (m : Nat) (e : Int) (a : Accuracy) :
    ∃ r, m / 2 ^ (roundedPlace m e - e).toNat ≤ r ∧ r ≤ m / 2 ^ (roundedPlace m e - e).toNat + 1 ∧
      let e₁ := max e (roundedPlace m e)
      let m₂ := r / 2 ^ (roundedPlace r e₁ - e₁).toNat
      roundWithAccuracy Format.binary64 s m e a =
        if h : m₂ = 0 then .zero s
        else .finite s m₂ (max e₁ (roundedPlace r e₁)) (Nat.pos_of_ne_zero h) := by
  obtain ⟨hm, he⟩ := shiftToExponent_eq m e a (roundedPlace m e)
  have hlow := le_roundedMantissa (shiftToExponent m e a (roundedPlace m e)).1
  have hhigh := roundedMantissa_le (shiftToExponent m e a (roundedPlace m e)).1
  rw [hm] at hlow hhigh
  refine ⟨_, hlow, hhigh, ?_⟩
  simp only [roundWithAccuracy, shiftToTargetExponent, targetExponent_eq, he, shiftToExponent_eq]

/-- Rounding puts the last place of a number where it fits, and at most one place further. -/
theorem within_roundWithAccuracy {s : Sign} {m : Nat} {e : Int} {a : Accuracy} (he : e ≤ b)
    (hm : m.log2 + e ≤ b + 51) (hb : -1074 ≤ b) :
    Within b (roundWithAccuracy Format.binary64 s m e a) := by
  obtain ⟨r, -, hr, heq⟩ := exists_rounded s m e a
  -- The rounded mantissa may have one bit more than the one that was cut.
  have hlog := Nat.le_trans (log2_mono hr) (log2_div_two_pow_succ_le m (roundedPlace m e - e).toNat)
  rw [heq]
  split
  · trivial
  · show max (max e (roundedPlace m e)) (roundedPlace r (max e (roundedPlace m e))) ≤ b
    unfold roundedPlace at *
    omega

/-- A number with bits enough is rounded to one with 53 bits. -/
theorem roundWithAccuracy_normal {s : Sign} {m : Nat} {e : Int} {a : Accuracy}
    (hm : 52 ≤ m.log2) (hlow : -1074 ≤ m.log2 + e - 52) :
    ∃ m' e' hpos, roundWithAccuracy Format.binary64 s m e a = .finite s m' e' hpos ∧
      m'.log2 = 52 ∧ m.log2 + e - 52 ≤ e' := by
  obtain ⟨r, hr, -, heq⟩ := exists_rounded s m e a
  have htarget : roundedPlace m e = m.log2 + e - 52 := by
    unfold roundedPlace
    omega
  have hm0 : m ≠ 0 := by
    rintro rfl
    exact absurd hm (by decide)
  -- The mantissa has bits enough, so that cutting leaves 53 of them.
  have hshift : (roundedPlace m e - e).toNat = m.log2 - 52 := by omega
  have hquotient := log2_div_two_pow hm0 hm
  rw [hshift] at hr
  have hr52 : 52 ≤ r.log2 := hquotient ▸ log2_mono hr
  have hr0 : r ≠ 0 := by
    rintro rfl
    exact absurd hr52 (by decide)
  have hmax : max e (roundedPlace m e) = m.log2 + e - 52 := by omega
  -- If rounding gives one bit more, the second cut takes it away.
  have hshift₂ : (roundedPlace r (m.log2 + e - 52) - (m.log2 + e - 52)).toNat = r.log2 - 52 := by
    unfold roundedPlace
    omega
  have hlog := log2_div_two_pow hr0 hr52
  have hne : r / 2 ^ (r.log2 - 52) ≠ 0 := by
    intro hzero
    rw [hzero] at hlog
    exact absurd hlog (by decide)
  rw [heq]
  simp only [hmax, hshift₂, hne, dif_neg, not_false_eq_true]
  exact ⟨_, _, Nat.pos_of_ne_zero hne, rfl, hlog, Int.le_max_left _ _⟩

/-! ## Packing -/

/-- The eleven bits of a float that tell its last place, or that it has none. -/
def exponentField (v : BitVec 64) : Nat :=
  (@unpackExponent Format.binary64 v).toNat

/-- A field that is not full is neither that of an infinity nor that of a NaN. -/
theorem ne_of_exponentField_lt {v : BitVec 64} (h : exponentField v < 2047) :
    @unpackExponent Format.binary64 v ≠ -1#_ := by
  intro heq
  rw [exponentField, heq] at h
  exact absurd h (by decide)

/-- The field of the exponent tells the last place of a packed number. -/
theorem within_unpack {v : BitVec 64} (h : exponentField v < 2047)
    (hb : (exponentField v : Int) ≤ b + 1075) (hlow : -1074 ≤ b) :
    Within b (unpack Format.binary64 v) := by
  have hne := ne_of_exponentField_lt h
  unfold unpack
  simp only [hne, if_false]
  -- A field of zero is that of zero and of the numbers at the smallest place, which lack the first
  -- bit.
  split
  · next h0 =>
    split
    · trivial
    · show ((@unpackExponent Format.binary64 v).toNat : Int) - (1023 + 52) + 1 ≤ b
      rw [h0]
      exact hlow
  · show (exponentField v : Int) - (1023 + 52) ≤ b
    omega

/-- A field that is not zero bounds a packed number from below, since its first bit is set. -/
theorem atLeast_unpack {v : BitVec 64} (hpos : 0 < exponentField v)
    (h : exponentField v < 2047) (hb : b ≤ exponentField v - 1075) :
    AtLeast b (unpack Format.binary64 v) := by
  have hne := ne_of_exponentField_lt h
  have hne' : @unpackExponent Format.binary64 v ≠ 0#_ := by
    intro heq
    rw [exponentField, heq] at hpos
    exact absurd hpos (by decide)
  unfold unpack
  simp only [hne, hne', if_false]
  show b ≤ (_ : Nat) + ((exponentField v : Int) - (1023 + 52))
  omega

/-- A packed number has 53 bits at most. -/
theorem log2_le_of_unpack {v : BitVec 64} {s : Sign} {m : Nat} {e : Int} {hm : 0 < m}
    (h : unpack Format.binary64 v = .finite s m e hm) : m.log2 ≤ 52 := by
  unfold unpack at h
  dsimp only at h
  split at h
  · split at h <;> contradiction
  · split at h
    · split at h
      · contradiction
      · cases h
        exact log2_le_of_lt (Nat.lt_trans (BitVec.isLt _) (by decide))
    · cases h
      exact log2_le_of_lt (BitVec.isLt _)

theorem exponentField_packComponents (s : Sign) (e : BitVec 11) (m : BitVec 52) :
    exponentField (packComponents Format.binary64 s e m) = e.toNat := by
  rw [exponentField, unpackExponent_packComponents]

theorem exponentField_pack_zero (s : Sign) : exponentField (pack Format.binary64 (.zero s)) = 0 :=
  exponentField_packComponents s 0 0

/-- The field of a finite number in range: it tells the place of a number of 53 bits, and is zero
for fewer bits. -/
theorem exponentField_pack_finite {s : Sign} {m : Nat} {e : Int} {hm : 0 < m} (h : e ≤ 971) :
    exponentField (pack Format.binary64 (.finite s m e hm)) =
      if m.log2 = 52 then (e + 1075).toNat else 0 := by
  have hfits : ¬ 2048 ≤ (e + 1023 + 52).toNat + 1 := by omega
  have hpack : pack Format.binary64 (.finite s m e hm) =
      if 2048 ≤ (e + 1023 + 52).toNat + 1 then packedInfinity Format.binary64 s
      else if m.log2 + 1 = 53 then
        packComponents Format.binary64 s (BitVec.ofNat 11 (e + 1023 + 52).toNat) (BitVec.ofNat 52 m)
      else packComponents Format.binary64 s 0 (BitVec.ofNat 52 m) := rfl
  rw [hpack, if_neg hfits]
  by_cases hlog : m.log2 = 52
  · rw [if_pos hlog, if_pos (by omega), exponentField_packComponents, BitVec.toNat_ofNat]
    omega
  · rw [if_neg hlog, if_neg (by omega), exponentField_packComponents]
    rfl

/-- A number in range keeps the bound of its last place when it is packed. -/
theorem within_unpack_pack (h : Within b f) (hhigh : b ≤ 971) (hlow : -1074 ≤ b) :
    Within b (unpack Format.binary64 (pack Format.binary64 f)) := by
  obtain ⟨s, rfl⟩ | ⟨s, m, e, hm, rfl, he⟩ := h.zero_or_finite
  · have hfield := exponentField_pack_zero s
    exact within_unpack (by omega) (by omega) hlow
  · have hfield := @exponentField_pack_finite s m e hm (by omega)
    refine within_unpack ?_ ?_ hlow <;> rw [hfield] <;> split <;> omega

/-- A number of 53 bits in range is not made smaller than its place when it is packed. -/
theorem atLeast_unpack_pack {s : Sign} {m : Nat} {e : Int} (hm : 0 < m) (hlog : m.log2 = 52)
    (hhigh : e ≤ 971) (hlow : -1074 ≤ e) (hb : b ≤ e) :
    AtLeast b (unpack Format.binary64 (pack Format.binary64 (.finite s m e hm))) := by
  have hfield := @exponentField_pack_finite s m e hm hhigh
  rw [if_pos hlog] at hfield
  exact atLeast_unpack (by omega) (by omega) (by omega)

/-- A number that is too large is packed as an infinity. -/
theorem within_or_isInf (h : Within b f) :
    Within 971 (unpack Format.binary64 (pack Format.binary64 f)) ∨
      (unpack Format.binary64 (pack Format.binary64 f)).isInf = true := by
  by_cases hsmall : Within 971 f
  · exact .inl (within_unpack_pack hsmall (by decide) (by decide))
  · right
    obtain ⟨s, rfl⟩ | ⟨s, m, e, hm, rfl, -⟩ := h.zero_or_finite
    · exact absurd trivial hsmall
    · have he : ¬ e ≤ 971 := hsmall
      have hpack : pack Format.binary64 (.finite s m e hm) = packedInfinity Format.binary64 s :=
        if_pos (show 2048 ≤ (e + 1023 + 52).toNat + 1 by omega)
      rw [hpack]
      simp [unpack, packedInfinity, UnpackedFloat.isInf]

/-! ## Finite floats -/

variable {x y : Float}

/-- A float is finite if the field of its exponent is not full. -/
theorem isFinite_iff :
    isFinite x = true ↔ exponentField x.toModel.toBits.toBitVec ≠ 2047 := by
  have hfield : exponentField x.toModel.toBits.toBitVec = x.toModel.toBits.toNat >>> 52 % 2048 := by
    show ((x.toModel.toBits.toBitVec.extractLsb 62 52).cast _).toNat = _
    rw [BitVec.toNat_cast, BitVec.extractLsb_toNat]
    rfl
  have hbits : ((x.toModel.toBits >>> 52) &&& 0x7FF).toNat =
      x.toModel.toBits.toNat >>> 52 % 2048 := by
    rw [UInt64.toNat_and, UInt64.toNat_shiftRight]
    exact Nat.and_two_pow_sub_one_eq_mod _ 11
  show ((x.toModel.toBits >>> 52) &&& 0x7FF != 0x7FF) = true ↔ _
  rw [bne_iff_ne, hfield, ← hbits, ne_eq, ← UInt64.toNat_inj]
  rfl

/-- A float with a last place is finite. -/
theorem isFinite_of_within (h : Within b x.toModel.unpack) : isFinite x = true := by
  rw [isFinite_iff]
  intro hfield
  -- A full field unpacks as an infinity or a NaN, and neither of them has a last place.
  have hall : @unpackExponent Format.binary64 x.toModel.toBits.toBitVec = -1#_ :=
    BitVec.eq_of_toNat_eq hfield
  rw [Float.Model.unpack, unpack] at h
  simp only [hall, if_true] at h
  split at h <;> exact h.elim

/-- No finite float has a larger last place. -/
theorem within_of_isFinite (h : isFinite x = true) : Within 971 x.toModel.unpack := by
  have hfield := isFinite_iff.mp h
  have hlt : exponentField x.toModel.toBits.toBitVec < 2048 := BitVec.isLt _
  exact within_unpack (by omega) (by omega) (by decide)

/-! ## Operations -/

/-- A product of finite numbers is finite before it is packed, however large it is. -/
theorem exists_within_mul (hf : Within b f) (hg : Within c g) :
    ∃ d, Within d (mul Format.binary64 f g) := by
  obtain ⟨s₁, rfl⟩ | ⟨s₁, m₁, e₁, hm₁, rfl, -⟩ := hf.zero_or_finite
  · obtain ⟨s₂, rfl⟩ | ⟨s₂, m₂, e₂, hm₂, rfl, -⟩ := hg.zero_or_finite
    · exact ⟨0, trivial⟩
    · exact ⟨0, trivial⟩
  · obtain ⟨s₂, rfl⟩ | ⟨s₂, m₂, e₂, hm₂, rfl, -⟩ := hg.zero_or_finite
    · exact ⟨0, trivial⟩
    · refine ⟨max (max (e₁ + e₂) ((m₁ * m₂).log2 + (e₁ + e₂))) (-1074), ?_⟩
      exact within_roundWithAccuracy (by omega) (by omega) (by omega)

/-- A product of finite floats is finite or infinite, but always a number. -/
theorem isFinite_mul (hx : Within b x.toModel.unpack) (hy : Within c y.toModel.unpack)
    (h : (x * y).isInf = false) : isFinite (x * y) = true := by
  obtain ⟨d, hd⟩ := exists_within_mul hx hy
  obtain hwithin | hinf := within_or_isInf hd
  · exact isFinite_of_within hwithin
  · have hinf' : (x * y).isInf = true := hinf
    rw [h] at hinf'
    contradiction

/-- A quotient by a number of at least two, before it is packed. -/
theorem within_unpacked_div (hf : Within b f) (hg : AtLeast 1 g)
    (hlog : ∀ s m e hm, f = .finite s m e hm → m.log2 ≤ 52) (hlow : -1074 ≤ b) :
    Within b (div Format.binary64 f g) := by
  obtain ⟨s₂, m₂, e₂, hm₂, rfl, hg⟩ := hg.exists_finite
  obtain ⟨s₁, rfl⟩ | ⟨s₁, m₁, e₁, hm₁, rfl, he₁⟩ := hf.zero_or_finite
  · trivial
  · have hlog₁ := hlog s₁ m₁ e₁ hm₁ rfl
    -- The place down to which the quotient is worked out before it is rounded.
    obtain ⟨t, ht⟩ : ∃ t, t = min (e₁ - e₂)
        (max ((m₁.log2 + e₁) - (m₂.log2 + e₂) - 53) (-1074)) := ⟨_, rfl⟩
    have htarget : min (e₁ - e₂) (Format.binary64.targetExponent
        (totalExponent m₁ e₁ - totalExponent m₂ e₂)) = t := by
      simp only [ht, Format.targetExponent, totalExponent, Format.mantissaBits, Format.minExponent]
      omega
    -- The quotient has as many bits as its place leaves it, and the divisor takes one away at
    -- least.
    have hquotient := log2_div_le (m := m₁ <<< (e₁ - e₂ - t).toNat) (Nat.ne_of_gt hm₂)
    have hshift := log2_shiftLeft_le m₁ (e₁ - e₂ - t).toNat
    rw [div]
    simp only [divCore, htarget]
    exact within_roundWithAccuracy (by omega) (by omega) hlow

/-- To divide a float by two or more does not move its last place up. -/
theorem within_div (hx : Within b x.toModel.unpack) (hy : AtLeast 1 y.toModel.unpack)
    (hhigh : b ≤ 971) (hlow : -1074 ≤ b) : Within b (x / y).toModel.unpack :=
  within_unpack_pack (within_unpacked_div hx hy (fun _ _ _ _ => log2_le_of_unpack) hlow) hhigh hlow

/-- The negative of a finite float is finite. -/
theorem isFinite_neg (h : isFinite x = true) : isFinite (-x) = true := by
  have hneg : Within 971 x.toModel.unpack.neg := by
    obtain ⟨s, hx⟩ | ⟨s, m, e, hm, hx, he⟩ := (within_of_isFinite h).zero_or_finite
    · rw [hx]
      trivial
    · rw [hx]
      exact he
  exact isFinite_of_within (within_unpack_pack hneg (by decide) (by decide))

/-- A whole number of 64 bits is rounded to 53 of them, so that its last place is at most the
twelfth. -/
theorem within_ofUInt64 (n : UInt64) : Within 12 n.toFloat.toModel.unpack := by
  have hround (s : Sign) (m : Nat) (hm : m < 2 ^ 64) :
      Within 12 (UnpackedFloat.round Format.binary64 s m 0) := by
    have hlog : m.log2 ≤ 63 := log2_le_of_lt hm
    rw [Float.Model.UnpackedFloat.round]
    simp only [targetExponent_eq, decreaseExponent]
    have hshift := log2_shiftLeft_le m (0 - roundedPlace m 0).toNat
    exact within_roundWithAccuracy (by omega) (by omega) (by decide)
  have hn := n.toNat_lt
  refine within_unpack_pack ?_ (by decide) (by decide)
  rw [ofUInt64, ofNat, ofInt, UnpackedFloat.normalize]
  split
  · exact hround _ _ (by omega)
  · trivial
  · exact hround _ _ (by omega)

end TableMarkup.Decimal
