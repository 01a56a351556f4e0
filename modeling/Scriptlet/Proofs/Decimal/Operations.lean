-- SUMMARY: Products and quotients of doubles: when they are finite, and when they are zero.
import Scriptlet.Proofs.Decimal.Rounding

/-!
# Products, quotients and integers

A product and a quotient are finite if the exact result is below the middle behind
the largest double. Integers and the powers of ten that are exact are moderate: their
products and quotients are finite and not zero. So a float that an integer stands for
is a zero only if the integer is.
-/
namespace Scriptlet.Decimal

open Float.Model (Format UnpackedFloat totalExponent)
open Float.Model.UnpackedFloat

/-! ## Integers of at most 53 bits -/

/-- A float of 53 bits is as exact as doubles are, and nothing is left to round. -/
theorem roundWithAccuracy_normal (s : Sign) {m : Nat} {e : Int} (hmin : 2 ^ 52 ≤ m)
    (hmax : m < 2 ^ 53) (he : -1074 ≤ e) :
    roundWithAccuracy Format.binary64 s m e .exact = .finite s m e (by omega) := by
  have hlog : m.log2 = 52 := (Nat.log2_eq_iff (by omega)).mpr ⟨hmin, hmax⟩
  have hexponent : roundingExponent m e = e := by
    unfold roundingExponent
    omega
  have hkept : (keptBits m e .exact).roundedMantissa = m := by
    simp [keptBits, hexponent]
    rfl
  rw [roundWithAccuracy_eq, hkept, hexponent, carried, dif_neg (by omega), if_neg (by omega)]

/-- A natural number of at most 53 bits is exact with its leading bit moved to the top. -/
theorem ofNat_eq_finite {n : Nat} (hpos : n ≠ 0) (hn : n < 2 ^ 53) :
    ∃ (m : Nat) (hm : 0 < m), 2 ^ 52 ≤ m ∧ m < 2 ^ 53 ∧
      ofNat Format.binary64 n = .finite .positive m (n.log2 - 52) hm := by
  have hlog : n.log2 < 53 := (Nat.log2_lt hpos).mpr hn
  have hlower := Nat.log2_self_le hpos
  have hupper : n < 2 ^ (n.log2 + 1) := Nat.lt_log2_self
  have hmin : 2 ^ 52 ≤ n * 2 ^ (52 - n.log2) := by
    calc 2 ^ 52 = 2 ^ n.log2 * 2 ^ (52 - n.log2) := by rw [← Nat.pow_add]; congr 1; omega
      _ ≤ n * 2 ^ (52 - n.log2) := Nat.mul_le_mul_right _ hlower
  have hmax : n * 2 ^ (52 - n.log2) < 2 ^ 53 := by
    calc n * 2 ^ (52 - n.log2) < 2 ^ (n.log2 + 1) * 2 ^ (52 - n.log2) :=
          Nat.mul_lt_mul_of_pos_right hupper (by positivity)
      _ = 2 ^ 53 := by rw [← Nat.pow_add]; congr 1; omega
  refine ⟨n * 2 ^ (52 - n.log2), by omega, hmin, hmax, ?_⟩
  have hcompare : compare (n : Int) 0 = .gt := Int.compare_eq_gt.mpr (by omega)
  have htarget : max ((n.log2 : Int) + 0 - 52) (-1074) = n.log2 - 52 := by omega
  have hamount : (0 - ((n.log2 : Int) - 52)).toNat = 52 - n.log2 := by omega
  have hexponent : 0 - ((52 - n.log2 : Nat) : Int) = n.log2 - 52 := by omega
  simp only [ofNat, ofInt, UnpackedFloat.normalize, hcompare, UnpackedFloat.round, decreaseExponent,
    Int.toNat_natCast, targetExponent_eq, htarget, hamount, hexponent, Nat.shiftLeft_eq]
  exact roundWithAccuracy_normal _ hmin hmax (by omega)

/-! ## Products and quotients -/

/-- A product is finite if it is below the middle behind the largest double. -/
theorem isFinite_stored_mul {s₁ s₂ : Sign} {m₁ m₂ : Nat} {e₁ e₂ : Int} (hm₁ : 0 < m₁) (hm₂ : 0 < m₂)
    {k : Nat} (hk : e₁ + e₂ = 970 - k) :
    (stored (mul Format.binary64 (.finite s₁ m₁ e₁ hm₁) (.finite s₂ m₂ e₂ hm₂))).isFinite ↔
      m₁ * m₂ < (2 ^ 54 - 1) * 2 ^ k := by
  simp only [mul, hk, isFinite_stored_roundWithAccuracy]

/-- A quotient is finite if it is below the middle behind the largest double. The dividend is moved
to the left first, as far as 53 bits of the quotient ask for. -/
theorem isFinite_stored_div {s₁ s₂ : Sign} {m₁ m₂ : Nat} {e₁ e₂ : Int} (hm₁ : 0 < m₁) (hm₂ : 0 < m₂)
    {k : Nat} (hk : e₁ - e₂ = 970 - k) :
    (stored (div Format.binary64 (.finite s₁ m₁ e₁ hm₁) (.finite s₂ m₂ e₂ hm₂))).isFinite ↔
      m₁ < (2 ^ 54 - 1) * 2 ^ k * m₂ := by
  simp only [div, divCore]
  set target := min (e₁ - e₂)
    (Format.binary64.targetExponent (totalExponent m₁ e₁ - totalExponent m₂ e₂))
  have htarget : target = 970 - (k + (e₁ - e₂ - target).toNat : Nat) := by omega
  generalize (e₁ - e₂ - target).toNat = shift at htarget ⊢
  rw [htarget, isFinite_stored_roundWithAccuracy, Nat.div_lt_iff_lt_mul hm₂, Nat.shiftLeft_eq,
    Nat.pow_add, ← Nat.mul_assoc, Nat.mul_right_comm _ _ m₂]
  exact Nat.mul_lt_mul_right (by positivity)

/-! ## Moderate floats -/

/-- A float that is neither zero nor nearly as small or as large as floats can be. -/
def IsModerate : UnpackedFloat → Prop
  | .finite _ m e _ => m < 2 ^ 53 ∧ -52 ≤ e ∧ e ≤ 52
  | _ => False

instance (x : UnpackedFloat) : Decidable (IsModerate x) := by
  cases x <;> unfold IsModerate <;> infer_instance

theorem isModerate_powersOfTen : ∀ k, (h : k < Float.exactlyRepresentablePowersOfTen.size) →
    IsModerate Float.exactlyRepresentablePowersOfTen[k].toModel.unpack := by
  decide

theorem isModerate_toFloat {n : Nat} (hpos : n ≠ 0) (hn : n < 2 ^ 53) :
    IsModerate n.toUInt64.toFloat.toModel.unpack := by
  have hword : n.toUInt64.toNat = n := Nat.mod_eq_of_lt (by omega)
  have hlog : n.log2 < 53 := (Nat.log2_lt hpos).mpr hn
  obtain ⟨m, hm, hmin, hmax, heq⟩ := ofNat_eq_finite hpos hn
  change IsModerate (stored (ofNat Format.binary64 n.toUInt64.toNat))
  rw [hword, heq, stored_of_normal _ _ hmin hmax (by omega) (by omega)]
  exact ⟨hmax, by omega, by omega⟩

theorem isFinite_stored_mul_of_isModerate {x y : UnpackedFloat} (hx : IsModerate x)
    (hy : IsModerate y) : (stored (mul Format.binary64 x y)).isFinite := by
  match x, y, hx, hy with
  | .finite s₁ m₁ e₁ hm₁, .finite s₂ m₂ e₂ hm₂, ⟨hx, hx₁, hx₂⟩, ⟨hy, hy₁, hy₂⟩ =>
    obtain ⟨k, hk⟩ := Int.eq_ofNat_of_zero_le (show 0 ≤ 970 - (e₁ + e₂) by omega)
    rw [isFinite_stored_mul hm₁ hm₂ (k := k) (by omega)]
    calc m₁ * m₂ < 2 ^ 53 * 2 ^ 53 := Nat.mul_lt_mul'' hx hy
      _ ≤ (2 ^ 54 - 1) * 2 ^ k :=
        Nat.mul_le_mul (by decide) (Nat.pow_le_pow_right (by decide) (by omega))

theorem isFinite_stored_div_of_isModerate {x y : UnpackedFloat} (hx : IsModerate x)
    (hy : IsModerate y) : (stored (div Format.binary64 x y)).isFinite := by
  match x, y, hx, hy with
  | .finite s₁ m₁ e₁ hm₁, .finite s₂ m₂ e₂ hm₂, ⟨hx, hx₁, hx₂⟩, ⟨hy, hy₁, hy₂⟩ =>
    obtain ⟨k, hk⟩ := Int.eq_ofNat_of_zero_le (show 0 ≤ 970 - (e₁ - e₂) by omega)
    rw [isFinite_stored_div hm₁ hm₂ (k := k) (by omega)]
    calc m₁ < 2 ^ 54 - 1 := hx.trans (by decide)
      _ ≤ (2 ^ 54 - 1) * 2 ^ k := Nat.le_mul_of_pos_right _ (by positivity)
      _ ≤ (2 ^ 54 - 1) * 2 ^ k * m₂ := Nat.le_mul_of_pos_right _ hm₂

theorem stored_mul_ne_zero {s s₁ s₂ : Sign} {m₁ m₂ : Nat} {e₁ e₂ : Int} (hm₁ : 0 < m₁)
    (hm₂ : 0 < m₂) (he : -1074 ≤ e₁ + e₂) :
    stored (mul Format.binary64 (.finite s₁ m₁ e₁ hm₁) (.finite s₂ m₂ e₂ hm₂)) ≠ .zero s :=
  stored_roundWithAccuracy_ne_zero (Nat.mul_pos hm₁ hm₂).ne' (by omega) _

theorem stored_mul_ne_zero_of_isModerate {x y : UnpackedFloat} {s : Sign} (hx : IsModerate x)
    (hy : IsModerate y) : stored (mul Format.binary64 x y) ≠ .zero s := by
  match x, y, hx, hy with
  | .finite _ _ _ hm₁, .finite _ _ _ hm₂, ⟨_, hx, _⟩, ⟨_, hy, _⟩ =>
    exact stored_mul_ne_zero hm₁ hm₂ (by omega)

/-! ## Zeros -/

/-- A float equals zero if it is a zero of either sign. -/
theorem beq_zero_iff_unpack (x : Float) : (x == 0) = true ↔ ∃ s, x.toModel.unpack = .zero s := by
  have hcompare : (x == 0) = (x.toModel.unpack.compare (.zero .positive) == some .eq) := rfl
  rw [hcompare]
  rcases x.toModel.unpack with s | _ | s | s
  · cases s <;> simp [UnpackedFloat.compare]
  · simp [UnpackedFloat.compare]
  · simp [UnpackedFloat.compare]
  · cases s <;> simp [UnpackedFloat.compare]

theorem toNat_unpackExponent (b : BitVec Format.binary64.numBits) :
    (unpackExponent b).toNat = b.toNat / 2 ^ 52 % 2 ^ 11 := by
  simp [unpackExponent, Nat.shiftRight_eq_div_pow]

theorem toNat_unpackMantissa (b : BitVec Format.binary64.numBits) :
    (unpackMantissa b).toNat = b.toNat % 2 ^ 52 := by
  simp [unpackMantissa]

theorem ext_toNat_toBits {x y : Float} (h : x.toBits.toNat = y.toBits.toNat) : x = y := by
  rcases x with ⟨⟨bits, _⟩⟩
  rcases y with ⟨⟨bits', _⟩⟩
  obtain rfl : bits = bits' := UInt64.toNat_inj.mp h
  rfl

theorem beq_zero_iff (x : Float) : (x == 0) = true ↔ x = 0 ∨ x = -0 := by
  rw [beq_zero_iff_unpack]
  constructor
  · rintro ⟨s, hs⟩
    obtain ⟨hexponent, hmantissa⟩ := (exists_unpack_eq_zero_iff _).mp ⟨s, hs⟩
    have hexponent' : x.toBits.toNat / 2 ^ 52 % 2 ^ 11 = 0 := by
      simpa [toNat_unpackExponent, Float.toBits] using congrArg BitVec.toNat hexponent
    have hmantissa' : x.toBits.toNat % 2 ^ 52 = 0 := by
      simpa [toNat_unpackMantissa, Float.toBits] using congrArg BitVec.toNat hmantissa
    have hsize : x.toBits.toNat < 2 ^ 64 := x.toBits.toNat_lt
    obtain hbits | hbits : x.toBits.toNat = 0 ∨ x.toBits.toNat = 2 ^ 63 := by omega
    · exact .inl (ext_toNat_toBits (hbits.trans (by decide)))
    · exact .inr (ext_toNat_toBits (hbits.trans (by decide)))
  · rintro (rfl | rfl)
    · exact ⟨.positive, rfl⟩
    · exact ⟨.negative, rfl⟩

theorem unpack_ofNat_ne_zero {n : Nat} (hn : n ≠ 0) (s : Sign) :
    (Float.ofNat n).toModel.unpack ≠ .zero s := by
  change (Float.ofScientific n false 0).toModel.unpack ≠ .zero s
  by_cases hfast : n < 2 ^ 53 ∧ 0 ≤ 22
  · rw [Float.ofScientific, dif_pos hfast]
    exact stored_mul_ne_zero_of_isModerate (isModerate_toFloat hn hfast.1)
      (isModerate_powersOfTen 0 (by decide))
  · rw [Float.ofScientific, dif_neg hfast]
    change stored (ofScientific Format.binary64 n 0) ≠ .zero s
    have hhigh : ¬ (0 : Int) < -(2 ^ 11 + (n.log2 : Int)) := by omega
    rw [ofScientific, dif_neg hn, if_neg (by decide), if_neg hhigh, if_pos le_rfl]
    exact stored_mul_ne_zero _ _ (by decide)

theorem ofNat_beq_zero (n : Nat) : (Float.ofNat n == 0) = true ↔ n = 0 := by
  rw [beq_zero_iff_unpack]
  constructor
  · rintro ⟨s, hs⟩
    by_contra hn
    exact unpack_ofNat_ne_zero hn s hs
  · rintro rfl
    exact ⟨.positive, rfl⟩

theorem unpack_bounds {b : BitVec Format.binary64.numBits} {s : Sign} {m : Nat} {e : Int}
    {hm : 0 < m} (h : unpack Format.binary64 b = .finite s m e hm) : m < 2 ^ 53 ∧ -1074 ≤ e := by
  have hbias : (Format.binary64.exponentBias +
    Format.binary64.mantissaBitsWithoutImplicit : Int) = 1075 := rfl
  simp only [unpack, hbias] at h
  split_ifs at h with hinfinite hfraction hzero hfraction
  · obtain ⟨-, rfl, rfl⟩ := UnpackedFloat.finite.inj h
    have hlt : (unpackMantissa b).toNat < 2 ^ 52 := (unpackMantissa b).isLt
    omega
  · obtain ⟨-, rfl, rfl⟩ := UnpackedFloat.finite.inj h
    have hlt : (1#1 ++ unpackMantissa b).toNat < 2 ^ 53 := (1#1 ++ unpackMantissa b).isLt
    have hpos : (unpackExponent b).toNat ≠ 0 := fun h => hzero (BitVec.eq_of_toNat_eq h)
    omega

/-- The sign does not make a zero of a float. -/
theorem neg_beq_zero (x : Float) : (-x == 0) = (x == 0) := by
  rw [Bool.eq_iff_iff, beq_zero_iff_unpack, beq_zero_iff_unpack]
  change (∃ s, stored x.toModel.unpack.neg = .zero s) ↔ _
  rw [exists_unpack_eq_zero_iff]
  rcases hx : x.toModel.unpack with s | _ | s | ⟨s, m, e, hm⟩
  · simp [UnpackedFloat.neg, pack, packedInfinity]
  · simp [UnpackedFloat.neg, pack, packedNaN]
  · simp [UnpackedFloat.neg, pack, packedZero]
  · rw [← exists_unpack_eq_zero_iff]
    obtain ⟨hm', he⟩ := unpack_bounds hx
    simp [UnpackedFloat.neg, stored_finite_ne_zero _ _ hm hm' he]

/-- An integer is a zero float only if it is zero. -/
theorem ofInt_beq_zero (n : Int) : (Float.ofInt n == 0) = true ↔ n = 0 := by
  cases n with
  | ofNat n => exact (ofNat_beq_zero n).trans (by simp)
  | negSucc n =>
    change (-Float.ofNat (n + 1) == 0) = true ↔ _
    rw [neg_beq_zero, ofNat_beq_zero]
    simp

end Scriptlet.Decimal
