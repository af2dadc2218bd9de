import TableMarkup.Json.Numeral
import TableMarkup.Proofs.Decimal.Rounding

/-!
# Numbers that are read are finite

A number that is read as a float is a significand of 64 bits that is multiplied by a power of ten, or
divided by one as often as it takes. The multiplication is checked, and a division by ten or more
keeps a finite float finite, so that no number is read as an infinity or a NaN.

* `powerOfTen_spec`: the powers of ten that are in use are finite, and at least two but for the first.
* `isFinite_scale`: scaling gives finite floats.
* `Numeral.Draft.isFinite_of_value?`: so does reading a number.
-/

namespace TableMarkup

namespace Decimal

open Float.Model (Format)
open Float.Model.UnpackedFloat

/-! ## Powers of ten -/

/-- The powers that are exact, and the one that is last in the range of floats. -/
theorem powerOfTen_checked : ∀ n ∈ 308 :: List.range 23,
    Within 971 (powerOfTen n).toModel.unpack ∧
      (n ≠ 0 → AtLeast 1 (powerOfTen n).toModel.unpack) := by
  decide +kernel

/-- A power that is not exact is rounded to 53 bits. -/
theorem powerOfTen_large {n : Nat} (hlow : 23 ≤ n) (hhigh : n ≤ 307) :
    Within 971 (powerOfTen n).toModel.unpack ∧ AtLeast 1 (powerOfTen n).toModel.unpack := by
  have hmodel : (powerOfTen n).toModel = Float.Model.ofScientific 1 n := by
    rw [powerOfTen, Float.ofScientific, dif_neg (by omega)]
    rfl
  -- The model multiplies by the power of ten at a scale of 53 bits and rounds once.
  have hproduct : ofScientific Format.binary64 1 n =
      roundWithAccuracy Format.binary64 .positive (2 ^ 53 * 10 ^ n) (-53) .exact := by
    have hbits : (2 : Int) ^ Format.binary64.exponentBits = 2048 := by decide
    rw [ofScientific, hbits, dif_neg (by decide), if_neg (by omega), if_neg (by omega),
      if_pos (by omega)]
    rfl
  -- A power of ten is at least that power of eight, which bounds its logarithm from below.
  have hlog : 52 + 3 * n ≤ (2 ^ 53 * 10 ^ n).log2 := by
    have hne : 2 ^ 53 * 10 ^ n ≠ 0 :=
      Nat.ne_of_gt (Nat.mul_pos (by decide) (Nat.pow_pos (by decide)))
    rw [Nat.le_log2 hne, Nat.pow_add, Nat.pow_mul]
    exact Nat.mul_le_mul (by decide) (Nat.pow_le_pow_left (by decide) n)
  -- The largest power in question bounds all others from above.
  have hlog' : (2 ^ 53 * 10 ^ n).log2 ≤ 1072 := by
    refine log2_le_of_lt (Nat.lt_of_le_of_lt (Nat.mul_le_mul_left _
      (Nat.pow_le_pow_right (by decide) hhigh)) ?_)
    decide +kernel
  have hwithin : Within 971 (roundWithAccuracy Format.binary64 .positive (2 ^ 53 * 10 ^ n) (-53)
      .exact) := within_roundWithAccuracy (by decide) (by omega) (by decide)
  obtain ⟨m, e, hpos, heq, hm, he⟩ := roundWithAccuracy_normal (s := .positive) (a := .exact)
    (m := 2 ^ 53 * 10 ^ n) (e := -53) (by omega) (by omega)
  rw [heq] at hwithin
  have he' : e ≤ 971 := hwithin
  rw [hmodel, Float.Model.ofScientific, hproduct, heq]
  exact ⟨within_unpack_pack hwithin (by decide) (by decide),
    atLeast_unpack_pack hpos hm he' (by omega) (by omega)⟩

/-- All powers that are in use: those that are exact are worked out, and the others follow from
rounding. -/
theorem powerOfTen_spec {n : Nat} (h : n ≤ 308) :
    Within 971 (powerOfTen n).toModel.unpack ∧
      (n ≠ 0 → AtLeast 1 (powerOfTen n).toModel.unpack) := by
  by_cases hlarge : 23 ≤ n ∧ n ≤ 307
  · obtain ⟨hwithin, hatLeast⟩ := powerOfTen_large hlarge.1 hlarge.2
    exact ⟨hwithin, fun _ => hatLeast⟩
  · refine powerOfTen_checked n ?_
    rw [List.mem_cons, List.mem_range]
    omega

/-! ## Scaling -/

/-- To divide by a power of ten, other than one itself, does not move the last place up. -/
theorem within_div_powerOfTen {x : Float} {b : Int} {n : Nat} (hx : Within b x.toModel.unpack)
    (hpos : n ≠ 0) (hn : n ≤ 308) (hhigh : b ≤ 971) (hlow : -1074 ≤ b) :
    Within b (x / powerOfTen n).toModel.unpack :=
  within_div hx ((powerOfTen_spec hn).2 hpos) hhigh hlow

/-- A float that is not large is scaled to a finite float. -/
theorem isFinite_scale {x y : Float} {e : Int} (hx : Within 12 x.toModel.unpack)
    (h : scale x e = some y) : isFinite y = true := by
  induction x, e using scale.induct with
  | case1 x e hsign hrange z hinf =>
    rw [scale, if_pos hsign, if_pos hrange] at h
    exact absurd h (by rw [if_pos hinf]; nofun)
  -- The product is checked for infinity by the program; that it is no NaN either, follows from its
  -- factors.
  | case2 x e hsign hrange z hinf =>
    rw [scale, if_pos hsign, if_pos hrange] at h
    obtain rfl : z = y := Option.some.inj (by rwa [if_neg hinf] at h)
    have hpower := (powerOfTen_spec (n := e.toNat) (by omega)).1
    exact isFinite_mul hx hpower (Bool.not_eq_true _ ▸ hinf)
  | case3 x e hsign hrange hzero =>
    rw [scale, if_pos hsign, if_neg hrange, if_pos hzero] at h
    obtain rfl := Option.some.inj h
    exact isFinite_of_within hx
  | case4 x e hsign hrange hzero =>
    rw [scale, if_pos hsign, if_neg hrange, if_neg hzero] at h
    contradiction
  | case5 x e hsign hrange =>
    rw [scale, if_neg hsign, if_pos hrange] at h
    obtain rfl := Option.some.inj h
    exact isFinite_of_within
      (within_div_powerOfTen hx (by omega) (by omega) (by decide) (by decide))
  | case6 x e hsign hrange hzero =>
    rw [scale, if_neg hsign, if_neg hrange, if_pos hzero] at h
    obtain rfl := Option.some.inj h
    exact isFinite_of_within hx
  -- An exponent below the table: one division by the largest power, and the rest by induction.
  | case7 x e hsign hrange hzero ih =>
    rw [scale, if_neg hsign, if_neg hrange, if_neg hzero] at h
    exact ih (within_div_powerOfTen hx (by decide) (by decide) (by decide) (by decide)) h

/-- A significand that is scaled by a written exponent is a finite float, if it is in range. -/
theorem Significand.isFinite_toFloat? {s : Significand} {exponent : Int} {x : Float}
    (h : s.toFloat? exponent = some x) : isFinite x = true := by
  unfold toFloat? at h
  split at h
  · exact isFinite_scale (within_ofUInt64 _) h
  · split at h
    · contradiction
    · obtain rfl := Option.some.inj h
      decide +kernel

end Decimal

namespace Numeral.Draft

variable {d : Draft} {x : Float}

/-- A draft with a fraction or an exponent gives a finite float, of either sign. -/
theorem isFinite_of_float? (h : d.float? = some x) : Decimal.isFinite x = true := by
  obtain ⟨y, hy, rfl⟩ := Option.map_eq_some_iff.mp h
  have hfinite : Decimal.isFinite y = true := Decimal.Significand.isFinite_toFloat? hy
  split
  · exact Decimal.isFinite_neg hfinite
  · exact hfinite

/-- A number that is read as a float is finite. -/
theorem isFinite_of_value? (h : d.value? = some (.float x)) : Decimal.isFinite x = true := by
  unfold value? at h
  split at h
  · cases h
  · obtain ⟨y, hy, hxy⟩ := Option.map_eq_some_iff.mp h
    cases hxy
    exact isFinite_of_float? hy

end Numeral.Draft

end TableMarkup
