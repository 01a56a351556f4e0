-- SUMMARY: Which decimals are read as finite doubles, and that the others are read as infinity.
import Scriptlet.Decimal.Reader
import Scriptlet.Proofs.Decimal.Operations

/-!
# The range of doubles

A decimal is read as a finite double if its exact value is below the middle between
the largest double and the power of two behind it, and as infinity if not. The bounds
for the leading digit only spare work: what they decide is decided the same way.
-/
namespace Scriptlet.Decimal

open Float.Model (Format UnpackedFloat totalExponent)
open Float.Model.UnpackedFloat

/-! ## Scaled by a power of ten -/

/-- The middle between the largest double and the power of two behind it. -/
def overflow : Nat := (2 ^ 54 - 1) * 2 ^ 970

theorem sub_one_mul_two_pow {a b n : Nat} (h : a + b = n) :
    ((2 : ℚ) ^ a - 1) * 2 ^ b = 2 ^ n - 2 ^ b := by
  rw [sub_mul, one_mul, ← pow_add, h]

theorem cast_overflow : (overflow : ℚ) = 2 ^ 1024 - 2 ^ 970 := by
  rw [← sub_one_mul_two_pow (a := 54) (b := 970) (n := 1024) rfl, overflow, Nat.cast_mul,
    Nat.cast_pow]
  norm_num only

theorem mul_two_pow_lt_iff (a b j k : Nat) : a * 2 ^ j < b * 2 ^ (k + j) ↔ a < b * 2 ^ k := by
  rw [Nat.pow_add, ← Nat.mul_assoc]
  exact Nat.mul_lt_mul_right (by positivity)

theorem isFinite_stored_ofScientific_nonneg {m k : Nat} (hm : m ≠ 0) (hk : k ≤ 2048) :
    (stored (ofScientific Format.binary64 m k)).isFinite ↔ m * 10 ^ k < overflow := by
  have hlow : ¬ (k : Int) > 2 ^ 11 := by omega
  have hhigh : ¬ (k : Int) < -(2 ^ 11 + (m.log2 : Int)) := by omega
  rw [ofScientific, dif_neg hm, if_neg hlow, if_neg hhigh, if_pos (by omega),
    isFinite_stored_mul _ _ (k := 970 + Format.binary64.mantissaBits) (by decide), Nat.shiftLeft_eq,
    Nat.mul_right_comm, mul_two_pow_lt_iff, Int.toNat_natCast, overflow]

theorem isFinite_stored_ofScientific_neg {m k : Nat} (hm : m ≠ 0) (hk : 0 < k)
    (hsmall : k ≤ 2048 + m.log2) :
    (stored (ofScientific Format.binary64 m (-k))).isFinite ↔ m < overflow * 10 ^ k := by
  have hlow : ¬ (-k : Int) > 2 ^ 11 := by omega
  have hhigh : ¬ (-k : Int) < -(2 ^ 11 + (m.log2 : Int)) := by omega
  rw [ofScientific, dif_neg hm, if_neg hlow, if_neg hhigh, if_neg (by omega),
    isFinite_stored_div _ _ (k := 970) (by rfl), Int.neg_neg, Int.toNat_natCast, overflow]

theorem isFinite_ofScientific_of_le {m e : Nat} (s : Bool) (hm : m ≠ 0) (hsmall : m < 2 ^ 53)
    (he : e ≤ 22) : (Float.ofScientific m s e).isFinite := by
  have hpower := isModerate_powersOfTen e (Nat.lt_succ_of_le he)
  rw [Float.ofScientific, dif_pos ⟨hsmall, he⟩]
  split
  · exact isFinite_stored_div_of_isModerate (isModerate_toFloat hm hsmall) hpower
  · exact isFinite_stored_mul_of_isModerate (isModerate_toFloat hm hsmall) hpower

theorem mul_two_pow_le {a b j k : Nat} (hab : a ≤ b) (hjk : j ≤ k) : a * 2 ^ j ≤ b * 2 ^ k :=
  Nat.mul_le_mul hab (Nat.pow_le_pow_right (by decide) hjk)

theorem lt_overflow_of_le {m e : Nat} (hsmall : m < 2 ^ 53) (he : e ≤ 22) :
    m * 10 ^ e < overflow := by
  have hpower : 10 ^ e ≤ 2 ^ 74 := (Nat.pow_le_pow_right (by decide) he).trans (by decide)
  have hlt : m * 10 ^ e < 2 ^ 53 * 2 ^ 74 :=
    Nat.mul_lt_mul_of_lt_of_le hsmall hpower (by positivity)
  rw [overflow]
  exact hlt.trans_le (mul_two_pow_le (by decide) (by decide))

theorem isFinite_ofScientific_nonneg {m e : Nat} (hm : m ≠ 0) (he : e ≤ 2048) :
    (Float.ofScientific m false e).isFinite ↔ m * 10 ^ e < overflow := by
  by_cases hfast : m < 2 ^ 53 ∧ e ≤ 22
  · exact iff_of_true (isFinite_ofScientific_of_le _ hm hfast.1 hfast.2)
      (lt_overflow_of_le hfast.1 hfast.2)
  · rw [Float.ofScientific, dif_neg hfast]
    exact isFinite_stored_ofScientific_nonneg hm he

theorem isFinite_ofScientific_neg {m e : Nat} (hm : m ≠ 0) (hpos : 0 < e) (he : e ≤ 2048 + m.log2) :
    (Float.ofScientific m true e).isFinite ↔ m < overflow * 10 ^ e := by
  by_cases hfast : m < 2 ^ 53 ∧ e ≤ 22
  · refine iff_of_true (isFinite_ofScientific_of_le _ hm hfast.1 hfast.2) ?_
    calc m ≤ m * 10 ^ e := Nat.le_mul_of_pos_right _ (by positivity)
      _ < overflow := lt_overflow_of_le hfast.1 hfast.2
      _ ≤ overflow * 10 ^ e := Nat.le_mul_of_pos_right _ (by positivity)
  · obtain ⟨k, rfl⟩ := Nat.exists_eq_succ_of_ne_zero hpos.ne'
    rw [Float.ofScientific, dif_neg hfast, if_pos rfl, Int.negOfNat_eq]
    exact isFinite_stored_ofScientific_neg hm hpos he

/-! ## Infinity -/

theorem pack_carried_of_not_isFinite {s : Sign} {r : Nat} {t : Int}
    (h : ¬ (stored (carried s r t)).isFinite) :
    pack Format.binary64 (carried s r t) = packedInfinity Format.binary64 s := by
  unfold carried at h ⊢
  split_ifs at h ⊢
  · exact absurd (isFinite_stored_zero s) h
  all_goals
    rw [isFinite_stored_finite] at h
    rw [pack_finite, if_pos (by omega)]

theorem pack_ofScientific_of_not_isFinite {m : Nat} {e : Int}
    (h : ¬ (stored (ofScientific Format.binary64 m e)).isFinite) :
    pack Format.binary64 (ofScientific Format.binary64 m e) =
      packedInfinity Format.binary64 .positive := by
  unfold ofScientific at h ⊢
  split_ifs at h ⊢
  · exact absurd (isFinite_stored_zero _) h
  · rfl
  · exact absurd (isFinite_stored_zero _) h
  · simp only [mul, roundWithAccuracy_eq] at h ⊢
    exact pack_carried_of_not_isFinite h
  · simp only [div, roundWithAccuracy_eq] at h ⊢
    exact pack_carried_of_not_isFinite h

/-- Positive infinity. -/
def infinity : Float := Float.ofBits 0x7FF0000000000000

theorem ofModel_pack_eq_infinity {x : UnpackedFloat}
    (h : pack Format.binary64 x = packedInfinity Format.binary64 .positive) :
    Float.ofModel (Float.Model.pack x) = infinity := by
  have hbits : UInt64.ofBitVec (packedInfinity Format.binary64 .positive) =
      (Float.Model.ofBits 0x7FF0000000000000).toBits := by decide
  have hmodel : Float.Model.pack x = Float.Model.ofBits 0x7FF0000000000000 := by
    simp only [Float.Model.pack, h, hbits]
  rw [hmodel]
  rfl

theorem ofScientific_of_not_isFinite {m e : Nat} {s : Bool} (hm : m ≠ 0)
    (h : ¬ (Float.ofScientific m s e).isFinite) : Float.ofScientific m s e = infinity := by
  by_cases hfast : m < 2 ^ 53 ∧ e ≤ 22
  · exact absurd (isFinite_ofScientific_of_le s hm hfast.1 hfast.2) h
  · rw [Float.ofScientific, dif_neg hfast] at h ⊢
    exact ofModel_pack_eq_infinity (pack_ofScientific_of_not_isFinite h)

/-! ## Decimals -/

namespace Scientific

/-- The number that is written. -/
def value (s : Scientific) : ℚ := s.coefficient * 10 ^ s.exponent

theorem value_lt_iff (s : Scientific) (n : Nat) :
    s.value < n ↔ s.coefficient * 10 ^ s.exponent.toNat < n * 10 ^ (-s.exponent).toNat := by
  have hscale : (0 : ℚ) < 10 ^ (-s.exponent).toNat := by positivity
  have hpower : (10 : ℚ) ^ s.exponent * 10 ^ (-s.exponent).toNat = 10 ^ s.exponent.toNat := by
    rw [← zpow_natCast, ← zpow_natCast, ← zpow_add₀ (by norm_num)]
    congr 1
    omega
  rw [value, ← mul_lt_mul_iff_left₀ hscale, mul_assoc, hpower]
  exact_mod_cast Iff.rfl

/-- The place of the leading digit, which the value is a power of ten below at most. -/
theorem value_lt_zpow (s : Scientific) :
    s.value < 10 ^ (s.exponent + (Nat.toDigits 10 s.coefficient).length) := by
  have hdigits : s.coefficient < 10 ^ (Nat.toDigits 10 s.coefficient).length :=
    (Nat.length_toDigits_le_iff (by decide) Nat.length_toDigits_pos).mp le_rfl
  have hcast : (s.coefficient : ℚ) < 10 ^ ((Nat.toDigits 10 s.coefficient).length : Int) := by
    exact_mod_cast hdigits
  rw [value, add_comm, zpow_add₀ (by norm_num)]
  exact mul_lt_mul_of_pos_right hcast (by positivity)

theorem zpow_le_value {s : Scientific} (hs : s.coefficient ≠ 0) :
    (10 : ℚ) ^ (s.exponent + (Nat.toDigits 10 s.coefficient).length - 1) ≤ s.value := by
  obtain ⟨k, hk⟩ := Nat.exists_eq_succ_of_ne_zero
    (Nat.length_toDigits_pos (b := 10) (n := s.coefficient)).ne'
  have hdigits : 10 ^ k ≤ s.coefficient := by
    by_contra! hlt
    obtain rfl | hpos := k.eq_zero_or_pos
    · exact hs (Nat.lt_one_iff.mp hlt)
    · have hle := (Nat.length_toDigits_le_iff (by decide) hpos).mpr hlt
      omega
  have hcast : (10 : ℚ) ^ (k : Int) ≤ s.coefficient := by exact_mod_cast hdigits
  rw [value, hk, show s.exponent + (k.succ : Int) - 1 = k + s.exponent by push_cast; ring,
    zpow_add₀ (by norm_num)]
  exact mul_le_mul_of_nonneg_right hcast (by positivity)

/-- Digits are no more than bits. -/
theorem length_toDigits_le_log2 (n : Nat) :
    (Nat.toDigits 10 n).length ≤ n.log2 + 1 := by
  refine (Nat.length_toDigits_le_iff (by decide) (Nat.succ_pos _)).mpr ?_
  exact Nat.lt_log2_self.trans_le (Nat.pow_le_pow_left (by decide) _)

theorem isFinite_toFloat_of_leading {s : Scientific} (hs : s.coefficient ≠ 0)
    (hlow : -330 ≤ s.exponent + (Nat.toDigits 10 s.coefficient).length)
    (hhigh : s.exponent + (Nat.toDigits 10 s.coefficient).length ≤ 310) :
    (Float.ofScientific s.coefficient (s.exponent < 0) s.exponent.natAbs).isFinite ↔
      s.value < overflow := by
  have hlength := length_toDigits_le_log2 s.coefficient
  rw [value_lt_iff]
  by_cases hsign : s.exponent < 0
  · rw [decide_eq_true hsign, isFinite_ofScientific_neg hs (by omega) (by omega),
      show s.exponent.toNat = 0 by omega, show (-s.exponent).toNat = s.exponent.natAbs by omega,
      Nat.pow_zero, Nat.mul_one]
  · rw [decide_eq_false hsign, isFinite_ofScientific_nonneg hs (by omega),
      show s.exponent.toNat = s.exponent.natAbs by omega, show (-s.exponent).toNat = 0 by omega,
      Nat.pow_zero, Nat.mul_one]

theorem overflow_le : overflow ≤ 10 ^ 310 := by decide +kernel

theorem overflow_pos : 0 < overflow := by decide +kernel

/-- A decimal is read as a finite double if it is below the middle between the largest double and
the power of two behind it. -/
theorem isFinite_toFloat (s : Scientific) : s.toFloat.isFinite ↔ s.value < overflow := by
  have hbelow := s.value_lt_zpow
  simp only [toFloat]
  split_ifs with hzero hinfinite
  · have hone : s.value < 1 := by
      obtain hcoefficient | hsmall := hzero
      · simp [value, hcoefficient]
      · exact hbelow.trans_le (zpow_le_one_of_nonpos₀ (by norm_num) (by omega))
    exact iff_of_true (by decide) (hone.trans_le (by exact_mod_cast overflow_pos))
  · refine iff_of_false (by decide) (not_lt_of_ge ?_)
    calc (overflow : ℚ) ≤ 10 ^ (310 : Int) := by exact_mod_cast overflow_le
      _ ≤ 10 ^ (s.exponent + (Nat.toDigits 10 s.coefficient).length - 1) :=
        zpow_le_zpow_right₀ (by norm_num) (by omega)
      _ ≤ s.value := zpow_le_value (by tauto)
  · exact isFinite_toFloat_of_leading (by tauto) (by omega) (by omega)

theorem toFloat_of_overflow_le {s : Scientific} (h : overflow ≤ s.value) :
    s.toFloat = infinity := by
  have hfinite : ¬ s.toFloat.isFinite := s.isFinite_toFloat.not.mpr (not_lt_of_ge h)
  simp only [toFloat] at hfinite ⊢
  split_ifs at hfinite ⊢ with hzero
  · exact absurd (by decide) hfinite
  · rfl
  · exact ofScientific_of_not_isFinite (by tauto) hfinite

end Scientific

end Scriptlet.Decimal
