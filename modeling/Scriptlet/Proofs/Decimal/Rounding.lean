-- SUMMARY: Rounding to doubles: which numbers become finite ones, and which become zero.
import Mathlib

/-!
# Rounding

The operations of the native floats compute exactly and round once. Rounding keeps
53 bits, fewer for the least floats, and drops the others but for a round bit and a
sticky bit. A number becomes infinite if the exponent of what is kept is too large,
so the numbers that do are those from the middle behind the largest double on.
-/
namespace Scriptlet.Decimal

open Float.Model (Format UnpackedFloat totalExponent)
open Float.Model.UnpackedFloat

/-! ## Bits that are dropped -/

theorem mantissa_shiftRight (x : ExtendedMantissa) (n : Nat) :
    (x >>> n).mantissa = x.mantissa / 2 ^ n := by
  change (n.repeat ExtendedMantissa.shiftRightOne x).mantissa = _
  induction n with
  | zero => simp [Nat.repeat]
  | succ n ih =>
    simp [Nat.repeat, ExtendedMantissa.shiftRightOne, ih, Nat.pow_succ, Nat.div_div_eq_div_mul]

theorem roundBit_shiftRight (x : ExtendedMantissa) (n : Nat) :
    (x >>> (n + 1)).roundBit = (x.mantissa / 2 ^ n % 2 != 0) := by
  have h := mantissa_shiftRight x n
  change (n.repeat ExtendedMantissa.shiftRightOne x).mantissa = _ at h
  change ((n + 1).repeat ExtendedMantissa.shiftRightOne x).roundBit = _
  simp [Nat.repeat, ExtendedMantissa.shiftRightOne, h]

theorem roundedMantissa_cases (x : ExtendedMantissa) :
    x.roundedMantissa = x.mantissa ∨ x.roundedMantissa = x.mantissa + 1 := by
  rcases x with ⟨m, _ | _, _ | _⟩ <;>
    simp [ExtendedMantissa.roundedMantissa, ExtendedMantissa.accuracy, Accuracy.roundToNearestEven]
  omega

/-- Half and more is rounded up behind an odd mantissa, and less is not. -/
theorem roundedMantissa_of_odd {x : ExtendedMantissa} (h : x.mantissa % 2 = 1) :
    x.roundedMantissa = x.mantissa + x.roundBit.toNat := by
  rcases x with ⟨m, _ | _, _ | _⟩ <;>
    simp_all [ExtendedMantissa.roundedMantissa, ExtendedMantissa.accuracy,
      Accuracy.roundToNearestEven]

/-! ## Rounding to 53 bits -/

theorem targetExponent_eq (m : Nat) (e : Int) :
    Format.binary64.targetExponent (totalExponent m e) = max (m.log2 + e - 52) (-1074) := by
  simp only [Format.targetExponent, totalExponent, Format.mantissaBits, Format.minExponent]
  norm_num
  congr 1
  omega

/-- The exponent of the double that a number `m * 2 ^ e` is rounded to, a carry apart. -/
def roundingExponent (m : Nat) (e : Int) : Int := max e (max (m.log2 + e - 52) (-1074))

/-- The bits that rounding keeps, with those it drops told by the residual bits. -/
def keptBits (m : Nat) (e : Int) (a : Accuracy) : ExtendedMantissa :=
  ExtendedMantissa.ofMantissaAndAccuracy m a >>> (roundingExponent m e - e).toNat

theorem shiftToTargetExponent_eq (m : Nat) (e : Int) (a : Accuracy) :
    shiftToTargetExponent Format.binary64 m e a = (keptBits m e a, roundingExponent m e) := by
  have hamount : (max (m.log2 + e - 52) (-1074) - e).toNat = (roundingExponent m e - e).toNat := by
    unfold roundingExponent
    omega
  have hexponent : e + ((roundingExponent m e - e).toNat : Int) = roundingExponent m e := by
    unfold roundingExponent
    omega
  simp only [shiftToTargetExponent, shiftToExponent, targetExponent_eq, hamount, hexponent,
    keptBits]

theorem mantissa_ofMantissaAndAccuracy (m : Nat) (a : Accuracy) :
    (ExtendedMantissa.ofMantissaAndAccuracy m a).mantissa = m := by
  rcases a with _ | ⟨_ | _ | _⟩ <;> rfl

theorem mantissa_keptBits (m : Nat) (e : Int) (a : Accuracy) :
    (keptBits m e a).mantissa = m / 2 ^ (roundingExponent m e - e).toNat := by
  rw [keptBits, mantissa_shiftRight, mantissa_ofMantissaAndAccuracy]

/-- A number is rounded to at most 53 bits, or to the number behind those. -/
theorem roundedMantissa_keptBits_le (m : Nat) (e : Int) (a : Accuracy) :
    (keptBits m e a).roundedMantissa ≤ 2 ^ 53 := by
  have hlog : m < 2 ^ (m.log2 + 1) := Nat.lt_log2_self
  have hshift : m.log2 + 1 ≤ (roundingExponent m e - e).toNat + 53 := by
    unfold roundingExponent
    omega
  have hkept : (keptBits m e a).mantissa < 2 ^ 53 := by
    rw [mantissa_keptBits, Nat.div_lt_iff_lt_mul (by positivity), ← Nat.pow_add]
    exact hlog.trans_le (Nat.pow_le_pow_right (by decide) (by omega))
  have hcases := roundedMantissa_cases (keptBits m e a)
  omega

/-- The float `r * 2 ^ t` of at most 53 bits, or the one behind those of 53 bits. -/
def carried (s : Sign) (r : Nat) (t : Int) : UnpackedFloat :=
  if h : r = 0 then .zero s
  else if r = 2 ^ 53 then .finite s (2 ^ 52) (t + 1) (by decide)
  else .finite s r t (Nat.pos_of_ne_zero h)

theorem carried_eq (s : Sign) {r : Nat} {t : Int} (hr : r ≤ 2 ^ 53) (ht : -1074 ≤ t) :
    (if h : (keptBits r t .exact).mantissa = 0 then .zero s
      else .finite s (keptBits r t .exact).mantissa (roundingExponent r t) (Nat.pos_of_ne_zero h)) =
        carried s r t := by
  obtain hlt | rfl := Nat.lt_or_eq_of_le hr
  · have hlog : r.log2 < 53 := by
      by_cases hzero : r = 0
      · simp [hzero]
      · exact (Nat.log2_lt hzero).mpr hlt
    have hexponent : roundingExponent r t = t := by
      unfold roundingExponent
      omega
    have hkept : (keptBits r t .exact).mantissa = r := by simp [mantissa_keptBits, hexponent]
    simp only [carried, hkept, hexponent, hlt.ne, if_false]
  · have hexponent : roundingExponent (2 ^ 53) t = t + 1 := by
      simp only [roundingExponent, Nat.log2_two_pow]
      omega
    have hkept : (keptBits (2 ^ 53) t .exact).mantissa = 2 ^ 52 := by
      rw [mantissa_keptBits, hexponent, add_sub_cancel_left]
      decide
    simp only [carried, hkept, hexponent]
    rfl

theorem roundWithAccuracy_eq (s : Sign) (m : Nat) (e : Int) (a : Accuracy) :
    roundWithAccuracy Format.binary64 s m e a =
      carried s (keptBits m e a).roundedMantissa (roundingExponent m e) := by
  have hmin : -1074 ≤ roundingExponent m e := by
    unfold roundingExponent
    omega
  simp only [roundWithAccuracy, shiftToTargetExponent_eq]
  exact carried_eq s (roundedMantissa_keptBits_le m e a) hmin

/-! ## Words of finite floats -/

/-- The float that is found where a float was stored. -/
abbrev stored (x : UnpackedFloat) : UnpackedFloat :=
  unpack Format.binary64 (pack Format.binary64 x)

theorem pack_finite (s : Sign) {m : Nat} (e : Int) (hm : 0 < m) :
    pack Format.binary64 (.finite s m e hm) =
      if 972 ≤ e then packedInfinity Format.binary64 s
      else if m.log2 = 52 then
        packComponents Format.binary64 s (BitVec.ofNat _ (e + 1075).toNat) (BitVec.ofNat _ m)
      else packComponents Format.binary64 s 0#_ (BitVec.ofNat _ m) := by
  have hbiased : (e + Format.binary64.exponentBias +
      Format.binary64.mantissaBitsWithoutImplicit).toNat = (e + 1075).toNat := congrArg Int.toNat (Int.add_assoc e 1023 52)
  have hlarge : 2 ^ Format.binary64.exponentBits ≤ (e + 1075).toNat + 1 ↔ 972 ≤ e := by
    dsimp only
    omega
  have hlong : m.log2 + 1 = Format.binary64.mantissaBits ↔ m.log2 = 52 := Nat.add_right_cancel_iff
  simp only [pack, hbiased, hlarge, hlong]

theorem isFinite_unpack (b : BitVec Format.binary64.numBits) :
    (unpack Format.binary64 b).isFinite ↔ unpackExponent b ≠ -1#_ := by
  simp only [unpack]
  by_cases hinfinite : unpackExponent b = -1#_
  · rw [if_pos hinfinite]
    split <;> simpa [isFinite] using hinfinite
  · rw [if_neg hinfinite]
    split
    · split <;> simpa [isFinite] using hinfinite
    · simpa [isFinite] using hinfinite

/-- A float is infinite if its exponent is too large, whatever its significand is. -/
theorem isFinite_stored_finite (s : Sign) {m : Nat} {e : Int} (hm : 0 < m) :
    (stored (.finite s m e hm)).isFinite ↔ e ≤ 971 := by
  rw [isFinite_unpack, pack_finite]
  by_cases hlarge : 972 ≤ e
  · rw [if_pos hlarge, packedInfinity, unpackExponent_packComponents]
    exact iff_of_false (fun h => h rfl) (by omega)
  · rw [if_neg hlarge]
    have hexponent : BitVec.ofNat Format.binary64.exponentBits (e + 1075).toNat ≠ -1#_ := by
      intro h
      have hnat := congrArg BitVec.toNat h
      simp at hnat
      omega
    by_cases hnormal : m.log2 = 52
    · rw [if_pos hnormal, unpackExponent_packComponents]
      exact iff_of_true hexponent (by omega)
    · rw [if_neg hnormal, unpackExponent_packComponents]
      exact iff_of_true (by decide) (by omega)

theorem isFinite_stored_zero (s : Sign) : (stored (.zero s)).isFinite := by
  rw [isFinite_unpack, pack, packedZero, unpackExponent_packComponents]
  decide

theorem isFinite_stored_carried (s : Sign) {r : Nat} (t : Int) (hr : r ≠ 0) :
    (stored (carried s r t)).isFinite ↔ t ≤ if r = 2 ^ 53 then 970 else 971 := by
  rw [carried, dif_neg hr]
  split
  · rw [isFinite_stored_finite]
    omega
  · exact isFinite_stored_finite s _

theorem isFinite_stored_carried_of_le (s : Sign) (r : Nat) {t : Int} (ht : t ≤ 970) :
    (stored (carried s r t)).isFinite := by
  by_cases hr : r = 0
  · subst hr
    exact isFinite_stored_zero s
  · rw [isFinite_stored_carried s t hr]
    split <;> omega

theorem roundBit_keptBits {m : Nat} {e : Int} (a : Accuracy) {n : Nat}
    (h : (roundingExponent m e - e).toNat = n + 1) :
    (keptBits m e a).roundBit = (m / 2 ^ n % 2 != 0) := by
  rw [keptBits, h, roundBit_shiftRight, mantissa_ofMantissaAndAccuracy]

/-- Of 54 bits the last is rounded. Only the greatest number of these becomes one of 54 bits. -/
theorem roundedMantissa_eq_iff {x : ExtendedMantissa} {q : Nat} (hq : q < 2 ^ 54)
    (hmantissa : x.mantissa = q / 2) (hbit : x.roundBit = (q % 2 != 0)) :
    x.roundedMantissa = 2 ^ 53 ↔ 2 ^ 54 - 1 ≤ q := by
  by_cases hgreatest : q / 2 = 2 ^ 53 - 1
  · rw [roundedMantissa_of_odd (by omega), hmantissa, hbit, hgreatest]
    obtain heven | hodd := Nat.mod_two_eq_zero_or_one q
    · simp [heven]
      omega
    · simp [hodd]
      omega
  · have hcases := roundedMantissa_cases x
    omega

/-- A number is rounded to a finite float if it is below the middle between the largest one and the
power of two behind it. -/
theorem isFinite_stored_roundWithAccuracy (s : Sign) (m k : Nat) (a : Accuracy) :
    (stored (roundWithAccuracy Format.binary64 s m (970 - k) a)).isFinite ↔
      m < (2 ^ 54 - 1) * 2 ^ k := by
  have hlog : m < 2 ^ (m.log2 + 1) := Nat.lt_log2_self
  have hcases := roundedMantissa_cases (keptBits m (970 - k) a)
  rw [roundWithAccuracy_eq]
  obtain hsmall | hlarge := Nat.lt_or_ge m.log2 (k + 53)
  · have ht : roundingExponent m (970 - k) ≤ 970 := by
      unfold roundingExponent
      omega
    refine iff_of_true (isFinite_stored_carried_of_le s _ ht) ?_
    calc m < 2 ^ (m.log2 + 1) := hlog
      _ ≤ 2 ^ (53 + k) := Nat.pow_le_pow_right (by decide) (by omega)
      _ = 2 ^ 53 * 2 ^ k := Nat.pow_add 2 53 k
      _ ≤ (2 ^ 54 - 1) * 2 ^ k := Nat.mul_le_mul_right _ (by decide)
  · have hpow : 2 ^ m.log2 ≤ m := by
      refine Nat.log2_self_le ?_
      rintro rfl
      simp at hlarge
    have ht : roundingExponent m (970 - k) = m.log2 + 918 - k := by
      unfold roundingExponent
      omega
    have hamount : (roundingExponent m (970 - k) - (970 - k)).toNat = m.log2 - 52 := by omega
    have hmantissa : 2 ^ 52 ≤ (keptBits m (970 - k) a).mantissa := by
      rw [mantissa_keptBits, hamount, Nat.le_div_iff_mul_le (by positivity), ← Nat.pow_add]
      exact (Nat.pow_le_pow_right (by decide) (by omega)).trans hpow
    rw [isFinite_stored_carried s _ (by omega), ht]
    obtain htop | hlarger := Nat.eq_or_lt_of_le hlarge
    · have hamount' : (roundingExponent m (970 - k) - (970 - k)).toNat = k + 1 := by omega
      have hq : m / 2 ^ k < 2 ^ 54 := by
        rw [Nat.div_lt_iff_lt_mul (by positivity), ← Nat.pow_add]
        exact hlog.trans_le (Nat.pow_le_pow_right (by decide) (by omega))
      have hhalf : (keptBits m (970 - k) a).mantissa = m / 2 ^ k / 2 := by
        rw [mantissa_keptBits, hamount', Nat.pow_succ, Nat.div_div_eq_div_mul]
      have hbit := roundBit_keptBits a hamount'
      have hcarry := roundedMantissa_eq_iff hq hhalf hbit
      rw [← Nat.div_lt_iff_lt_mul (by positivity)]
      split <;> omega
    · refine iff_of_false (by split <;> omega) (Nat.not_lt_of_ge ?_)
      calc (2 ^ 54 - 1) * 2 ^ k ≤ 2 ^ 54 * 2 ^ k := Nat.mul_le_mul_right _ (by decide)
        _ = 2 ^ (54 + k) := (Nat.pow_add 2 54 k).symm
        _ ≤ 2 ^ m.log2 := Nat.pow_le_pow_right (by decide) (by omega)
        _ ≤ m := hpow

/-! ## Words of zeros -/

theorem exists_unpack_eq_zero_iff (b : BitVec Format.binary64.numBits) :
    (∃ s, unpack Format.binary64 b = .zero s) ↔
      unpackExponent b = 0#_ ∧ unpackMantissa b = 0#_ := by
  simp only [unpack]
  by_cases hinfinite : unpackExponent b = -1#_
  · rw [if_pos hinfinite, hinfinite]
    split <;> simp
  · rw [if_neg hinfinite]
    split
    · split <;> simp [*]
    · simp [*]

theorem toNat_append_one {m : Nat} (hmin : 2 ^ 52 ≤ m) (hmax : m < 2 ^ 53) :
    (1#1 ++ BitVec.ofNat 52 m).toNat = m := by
  rw [BitVec.toNat_append, ← Nat.shiftLeft_add_eq_or_of_lt (BitVec.isLt _)]
  simp [Nat.shiftLeft_eq]
  omega

theorem unpackSign_packComponents {spec : Format} (s : Sign) (e : BitVec spec.exponentBits)
    (m : BitVec spec.mantissaBitsWithoutImplicit) :
    Sign.ofBitVec (unpackSign (packComponents spec s e m)) = s := by
  have hsign : unpackSign (packComponents spec s e m) = s.toBitVec := by
    ext i hi
    obtain rfl : i = 0 := by omega
    simp [unpackSign, packComponents, BitVec.getLsbD_append, BitVec.getElem_append]
  rw [hsign]
  cases s <;> rfl

theorem ofNat_ne {w n k : Nat} (hn : n < 2 ^ w) (hk : k < 2 ^ w) (h : n ≠ k) :
    BitVec.ofNat w n ≠ BitVec.ofNat w k := by
  intro heq
  have hnat := congrArg BitVec.toNat heq
  rw [BitVec.toNat_ofNat, BitVec.toNat_ofNat, Nat.mod_eq_of_lt hn, Nat.mod_eq_of_lt hk] at hnat
  exact h hnat

theorem stored_of_normal (s : Sign) {m : Nat} {e : Int} (hm : 0 < m) (hmin : 2 ^ 52 ≤ m)
    (hmax : m < 2 ^ 53) (hlow : -1074 ≤ e) (hhigh : e ≤ 971) :
    stored (.finite s m e hm) = .finite s m e hm := by
  have hlog : m.log2 = 52 := (Nat.log2_eq_iff hm.ne').mpr ⟨hmin, hmax⟩
  have hlt : (e + 1075).toNat < 2 ^ Format.binary64.exponentBits := by
    dsimp only
    omega
  have hfield : (BitVec.ofNat Format.binary64.exponentBits (e + 1075).toNat).toNat =
      (e + 1075).toNat := by
    rw [BitVec.toNat_ofNat, Nat.mod_eq_of_lt hlt]
  have hinfinite : BitVec.ofNat Format.binary64.exponentBits (e + 1075).toNat ≠ -1#_ := by
    exact ofNat_ne (k := 2047) hlt (by decide) (by omega)
  have hzero : BitVec.ofNat Format.binary64.exponentBits (e + 1075).toNat ≠ 0#_ := by
    exact ofNat_ne hlt (by decide) (by omega)
  rw [stored, pack_finite, if_neg (by omega), if_pos hlog, unpack]
  simp only [unpackExponent_packComponents, unpackMantissa_packComponents,
    unpackSign_packComponents, if_neg hinfinite, if_neg hzero, hfield, toNat_append_one hmin hmax]
  congr 1
  change ((e + 1075).toNat : Int) - 1075 = e
  omega

theorem stored_finite_ne_zero (s s' : Sign) {m : Nat} {e : Int} (hm : 0 < m) (hmax : m < 2 ^ 53)
    (hlow : -1074 ≤ e) :
    stored (.finite s m e hm) ≠ .zero s' := by
  intro h
  obtain ⟨hexponent, hmantissa⟩ := (exists_unpack_eq_zero_iff _).mp ⟨s', h⟩
  rw [pack_finite] at hexponent hmantissa
  by_cases hlarge : 972 ≤ e
  · rw [if_pos hlarge, packedInfinity, unpackExponent_packComponents] at hexponent
    exact absurd hexponent (by decide)
  · rw [if_neg hlarge] at hexponent hmantissa
    by_cases hnormal : m.log2 = 52
    · rw [if_pos hnormal, unpackExponent_packComponents] at hexponent
      exact ofNat_ne (w := 11) (by omega) (by decide) (by omega) hexponent
    · rw [if_neg hnormal, unpackMantissa_packComponents] at hmantissa
      have hlog := (Nat.log2_lt hm.ne').mpr hmax
      have hshort : m < 2 ^ 52 := (Nat.log2_lt hm.ne').mp (by omega)
      exact ofNat_ne (w := 52) hshort (by decide) hm.ne' hmantissa

/-- A number that is not too small for the exponents of floats is rounded to no zero. -/
theorem roundedMantissa_keptBits_ne_zero {m : Nat} {e : Int} (hm : m ≠ 0) (h : -1074 ≤ m.log2 + e)
    (a : Accuracy) : (keptBits m e a).roundedMantissa ≠ 0 := by
  have hpow : 2 ^ (roundingExponent m e - e).toNat ≤ m := by
    refine (Nat.pow_le_pow_right (by decide) ?_).trans (Nat.log2_self_le hm)
    unfold roundingExponent
    omega
  have hkept : 0 < (keptBits m e a).mantissa := by
    rw [mantissa_keptBits]
    exact Nat.div_pos hpow (by positivity)
  have hcases := roundedMantissa_cases (keptBits m e a)
  omega

theorem stored_roundWithAccuracy_ne_zero {s s' : Sign} {m : Nat} {e : Int} (hm : m ≠ 0)
    (h : -1074 ≤ m.log2 + e) (a : Accuracy) :
    stored (roundWithAccuracy Format.binary64 s m e a) ≠ .zero s' := by
  have hle := roundedMantissa_keptBits_le m e a
  have hmin : -1074 ≤ roundingExponent m e := by
    unfold roundingExponent
    omega
  rw [roundWithAccuracy_eq, carried, dif_neg (roundedMantissa_keptBits_ne_zero hm h a)]
  split
  · exact stored_finite_ne_zero _ _ _ (by decide) (by omega)
  · exact stored_finite_ne_zero _ _ _ (by omega) hmin

end Scriptlet.Decimal
