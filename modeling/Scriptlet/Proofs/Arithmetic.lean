-- SUMMARY: What an operator between two values gives: which fault, which type of number, which quotient.
import Scriptlet.Proofs.Decimal.Operations
import Scriptlet.Value.Arith

/-!
# Operators between values

Types are looked at first, then the divisor, and only then is anything computed. An
integer among floats is tested for zero after it was made a float, which changes
nothing since no other integer becomes a zero float. Integers are divided without a
fraction, exactly but for the one quotient that has 65 bits.
-/
namespace Scriptlet

/-! ## Numbers and zeros -/

namespace Value

/-- Is the value an integer or a float? -/
def IsNumber (v : Value) : Prop := v.ty = .int ∨ v.ty = .float

/-- Is the value a zero, be it an integer or a float of either sign? -/
def IsZero (v : Value) : Prop := v = .int 0 ∨ v = .float 0 ∨ v = .float (-0)

@[simp]
theorem isNumber_int (n : Int64) : (int n).IsNumber := .inl rfl

@[simp]
theorem isNumber_float (x : Float) : (float x).IsNumber := .inr rfl

@[simp]
theorem not_isNumber_null : ¬ null.IsNumber := by simp [IsNumber, ty]

@[simp]
theorem not_isNumber_string (s : String) : ¬ (string s).IsNumber := by simp [IsNumber, ty]

@[simp]
theorem isZero_int (n : Int64) : (int n).IsZero ↔ n = 0 := by simp [IsZero]

@[simp]
theorem isZero_float (x : Float) : (float x).IsZero ↔ x = 0 ∨ x = -0 := by simp [IsZero]

theorem exists_eq_int {v : Value} (h : v.ty = .int) : ∃ n, v = .int n := by
  cases v <;> simp_all [ty]

/-- A number becomes a zero float if it is a zero. -/
theorem beq_zero_of_toFloat? {v : Value} {x : Float} (h : v.toFloat? = some x) :
    (x == 0) = true ↔ v.IsZero := by
  cases v with
  | null => simp [toFloat?] at h
  | string s => simp [toFloat?] at h
  | int n =>
    obtain rfl : Float.ofInt n.toInt = x := by simpa [toFloat?] using h
    rw [Decimal.ofInt_beq_zero, isZero_int, ← Int64.toInt_inj, Int64.toInt_zero]
  | float y =>
    obtain rfl : y = x := by simpa [toFloat?] using h
    rw [Decimal.beq_zero_iff, isZero_float]

theorem exists_toFloat?_eq_some {v : Value} (h : v.IsNumber) : ∃ x, v.toFloat? = some x := by
  cases v <;> simp_all [toFloat?]

theorem toFloat?_eq_none {v : Value} (h : ¬ v.IsNumber) : v.toFloat? = none := by
  cases v <;> simp_all [toFloat?]

end Value

/-! ## Operators -/

namespace BinaryOp

variable {op : BinaryOp} {v w : Value}

theorem apply_ints (op : BinaryOp) (a b : Int64) :
    op.apply (.int a) (.int b) =
      if op = .div ∧ b = 0 then .error .divisionByZero else .ok (.int (op.onInts a b)) := rfl

/-- Between values that are not both integers, both are made floats. -/
theorem apply_of_ty_ne (op : BinaryOp) (h : ¬ (v.ty = .int ∧ w.ty = .int)) :
    op.apply v w =
      match v.toFloat?, w.toFloat? with
      | some a, some b =>
        if op = .div ∧ b == 0 then .error .divisionByZero else .ok (.float (op.onFloats a b))
      | _, _ => .error (.type (.binaryOperands op v.ty w.ty)) := by
  unfold apply
  split
  · simp [Value.ty] at h
  · rfl

theorem apply_of_not_isNumber (op : BinaryOp) (h : ¬ (v.IsNumber ∧ w.IsNumber)) :
    op.apply v w = .error (.type (.binaryOperands op v.ty w.ty)) := by
  have hty : ¬ (v.ty = .int ∧ w.ty = .int) := fun hty => h ⟨.inl hty.1, .inl hty.2⟩
  rw [apply_of_ty_ne op hty]
  obtain hv | hw := not_and_or.mp h
  · simp [Value.toFloat?_eq_none hv]
  · simp [Value.toFloat?_eq_none hw]

theorem apply_of_isZero (hv : v.IsNumber) (hw : w.IsNumber) (hzero : w.IsZero) :
    div.apply v w = .error .divisionByZero := by
  by_cases hty : v.ty = .int ∧ w.ty = .int
  · obtain ⟨a, rfl⟩ := Value.exists_eq_int hty.1
    obtain ⟨b, rfl⟩ := Value.exists_eq_int hty.2
    simp [apply_ints, (Value.isZero_int b).mp hzero]
  · obtain ⟨x, hx⟩ := Value.exists_toFloat?_eq_some hv
    obtain ⟨y, hy⟩ := Value.exists_toFloat?_eq_some hw
    simp [apply_of_ty_ne div hty, hx, hy, (Value.beq_zero_of_toFloat? hy).mpr hzero]

/-- Where nothing is divided by zero, numbers give an integer if both are integers, and a float
otherwise. -/
theorem apply_of_isNumber (hv : v.IsNumber) (hw : w.IsNumber) (hzero : ¬ (op = .div ∧ w.IsZero)) :
    ∃ r, op.apply v w = .ok r ∧ r.ty = if v.ty = .int ∧ w.ty = .int then .int else .float := by
  by_cases hty : v.ty = .int ∧ w.ty = .int
  · obtain ⟨a, rfl⟩ := Value.exists_eq_int hty.1
    obtain ⟨b, rfl⟩ := Value.exists_eq_int hty.2
    rw [Value.isZero_int] at hzero
    exact ⟨.int (op.onInts a b), by simp only [apply_ints, if_neg hzero], (if_pos hty).symm⟩
  · obtain ⟨x, hx⟩ := Value.exists_toFloat?_eq_some hv
    obtain ⟨y, hy⟩ := Value.exists_toFloat?_eq_some hw
    have hy' : ¬ (op = .div ∧ (y == 0) = true) := by rwa [Value.beq_zero_of_toFloat? hy]
    refine ⟨.float (op.onFloats x y), ?_, (if_neg hty).symm⟩
    simp only [apply_of_ty_ne op hty, hx, hy, if_neg hy']

end BinaryOp

/-! ## Quotients -/

/-- A quotient without a fraction: the remainder is smaller than the divisor, and zero or of the
sign of the dividend. -/
def IsQuotient (a b q : Int) : Prop :=
  ∃ r, a = q * b + r ∧ |r| < |b| ∧ (r = 0 ∨ r.sign = a.sign)

theorem isQuotient_tdiv (a : Int) {b : Int} (hb : b ≠ 0) : IsQuotient a b (a.tdiv b) := by
  refine ⟨a.tmod b, ?_, ?_, ?_⟩
  · rw [Int.mul_comm, Int.mul_tdiv_add_tmod]
  · rw [Int.abs_eq_natAbs, Int.abs_eq_natAbs, Int.natAbs_tmod]
    exact_mod_cast Nat.mod_lt _ (Int.natAbs_pos.mpr hb)
  · by_cases hdvd : b ∣ a
    · exact .inl (Int.tmod_eq_zero_of_dvd hdvd)
    · exact .inr (by rw [Int.sign_tmod, if_neg hdvd])

/-- Two remainders of one sign are less than a divisor apart. -/
theorem abs_sub_lt_of_sign {r r' n : Int} (hsign : r = 0 ∨ r' = 0 ∨ r.sign = r'.sign)
    (h : |r| < n) (h' : |r'| < n) : |r' - r| < n := by
  obtain rfl | rfl | hsign := hsign
  · simpa using h'
  · simpa using h
  · rw [abs_lt] at *
    obtain hneg | rfl | hpos := lt_trichotomy r 0
    · have hneg' : r' < 0 := Int.sign_eq_neg_one_iff_neg.mp (by simp [← hsign, hneg])
      omega
    · omega
    · have hpos' : 0 < r' := Int.sign_eq_one_iff_pos.mp (by simp [← hsign, hpos])
      omega

/-- There is only one such quotient. -/
theorem IsQuotient.unique {a b q q' : Int} (h : IsQuotient a b q) (h' : IsQuotient a b q') :
    q = q' := by
  obtain ⟨r, hr, hlt, hsign⟩ := h
  obtain ⟨r', hr', hlt', hsign'⟩ := h'
  have hdvd : b ∣ r' - r := ⟨q - q', by linarith [mul_comm b (q - q'), sub_mul q q' b]⟩
  have hsigns : r = 0 ∨ r' = 0 ∨ r.sign = r'.sign := by
    obtain hr | hr := hsign
    · exact .inl hr
    · exact .inr (hsign'.imp_right fun hr' => hr.trans hr'.symm)
  have heq : r' - r = 0 :=
    Int.eq_zero_of_abs_lt_dvd ((abs_dvd b _).mpr hdvd) (abs_sub_lt_of_sign hsigns hlt hlt')
  have hb : b ≠ 0 := by
    rintro rfl
    exact absurd hlt (by simp)
  exact mul_right_cancel₀ hb (by linarith)

theorem isQuotient_iff {a b : Int} (hb : b ≠ 0) (q : Int) : IsQuotient a b q ↔ q = a.tdiv b :=
  ⟨fun h => h.unique (isQuotient_tdiv a hb), fun h => h ▸ isQuotient_tdiv a hb⟩

/-- The least integer divided by minus one has 65 bits, and is the least integer again. -/
theorem minValue_div_neg_one : Int64.minValue / -1 = Int64.minValue := by decide

/-- Every other quotient is exact. -/
theorem toInt_div {a b : Int64} (h : ¬ (a = Int64.minValue ∧ b = -1)) :
    (a / b).toInt = a.toInt.tdiv b.toInt := by
  obtain ha | hb := not_and_or.mp h
  · exact Int64.toInt_div_of_ne_left a b ha
  · exact Int64.toInt_div_of_ne_right a b hb

/-- Integers are divided exactly but for that one quotient. -/
theorem BinaryOp.exists_quotient (a : Int64) {b : Int64} (hb : b ≠ 0) :
    ∃ q, BinaryOp.div.apply (.int a) (.int b) = .ok (.int q) ∧
      if a = Int64.minValue ∧ b = -1 then q = Int64.minValue
      else ∀ q', IsQuotient a.toInt b.toInt q' ↔ q' = q.toInt := by
  refine ⟨a / b, ?_, ?_⟩
  · simp [apply_ints, hb, onInts]
  · split
    case isTrue h => rw [h.1, h.2, minValue_div_neg_one]
    case isFalse h =>
      intro q'
      have hb' : b.toInt ≠ 0 := by simpa [← Int64.toInt_inj] using hb
      rw [toInt_div h, isQuotient_iff hb']

/-- What an operator between two values gives, whichever they are. A fault of types comes before a
division by zero, and the numbers that are left give a number. The quotient of two integers is the
only one whose remainder is smaller than the divisor and not of the other sign. -/
theorem BinaryOp.apply_classified :
    (∀ (op : BinaryOp) (v w : Value),
      ((∃ fault, op.apply v w = .error (.type fault)) ↔ ¬ (v.IsNumber ∧ w.IsNumber)) ∧
      (op.apply v w = .error .divisionByZero ↔
        (v.IsNumber ∧ w.IsNumber) ∧ op = .div ∧ w.IsZero) ∧
      ((∃ r, op.apply v w = .ok r ∧ r.ty = if v.ty = .int ∧ w.ty = .int then .int else .float) ↔
        (v.IsNumber ∧ w.IsNumber) ∧ ¬ (op = .div ∧ w.IsZero))) ∧
    ∀ a b : Int64, b ≠ 0 →
      ∃ q, BinaryOp.div.apply (.int a) (.int b) = .ok (.int q) ∧
        if a = Int64.minValue ∧ b = -1 then q = Int64.minValue
        else ∀ q', IsQuotient a.toInt b.toInt q' ↔ q' = q.toInt := by
  refine ⟨fun op v w => ?_, fun a b hb => exists_quotient a hb⟩
  by_cases hnumbers : v.IsNumber ∧ w.IsNumber
  · by_cases hzero : op = .div ∧ w.IsZero
    · obtain ⟨rfl, hw⟩ := hzero
      simp [apply_of_isZero hnumbers.1 hnumbers.2 hw, hnumbers, hw]
    · obtain ⟨r, hr, hty⟩ := apply_of_isNumber hnumbers.1 hnumbers.2 hzero
      simp [hr, hty, hnumbers, hzero]
  · simp [apply_of_not_isNumber op hnumbers, hnumbers]

/-- The operands of a division: of the wrong type although the right one is zero, a zero among
floats, the quotient of 65 bits, and one with a remainder. -/
theorem BinaryOp.apply_classified_div :
    (∃ fault, BinaryOp.div.apply (.string "a") (.int 0) = .error (.type fault)) ∧
    BinaryOp.div.apply (.int 1) (.float (-0)) = .error .divisionByZero ∧
    (∃ q, BinaryOp.div.apply (.int Int64.minValue) (.int (-1)) = .ok (.int q) ∧
      q = Int64.minValue) ∧
    ∃ q, BinaryOp.div.apply (.int (-7)) (.int 2) = .ok (.int q) ∧ IsQuotient (-7) 2 q.toInt := by
  obtain ⟨hall, hquotient⟩ := apply_classified
  refine ⟨(hall .div (.string "a") (.int 0)).1.mpr (by simp),
    (hall .div (.int 1) (.float (-0))).2.1.mpr (by simp), ?_, ?_⟩
  · simpa using hquotient Int64.minValue (-1) (by decide)
  · obtain ⟨q, hq, hlaw⟩ := hquotient (-7) 2 (by decide)
    rw [if_neg (by decide)] at hlaw
    exact ⟨q, hq, (hlaw q.toInt).mpr rfl⟩

end Scriptlet
