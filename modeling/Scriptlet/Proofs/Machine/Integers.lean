-- SUMMARY: Integer expressions evaluate to their exact value modulo 2 ^ 64, whatever overflows on the way.
import Scriptlet.Proofs.Machine.Steps
import Scriptlet.Proofs.Parse.Shallow

/-!
# Integer arithmetic

An expression of integers, signs, sums, differences and products has an exact value
among all integers. Reducing integers to 64 bits keeps these operations, so what is
evaluated is the reduction of that value, and the reductions on the way do no harm.
-/
namespace Scriptlet

open Scriptlet.Action

/-- A sign before an integer without bounds. -/
def UnaryOp.onExactInt : UnaryOp → Int → Int
  | .plus, a => a
  | .minus, a => -a

/-- An operator between integers without bounds. Quotients are left out. -/
def BinaryOp.onExactInts? : BinaryOp → Option (Int → Int → Int)
  | .add => some (· + ·)
  | .sub => some (· - ·)
  | .mul => some (· * ·)
  | .div => none

/-- The exact value of an expression that is built from integers with signs, sums, differences and
products only. -/
def Expr.exactInt? : Expr → Option Int
  | .int n => some n.toInt
  | .unary op e => op.onExactInt <$> e.exactInt?
  | .binary op lhs rhs => do return (← op.onExactInts?) (← lhs.exactInt?) (← rhs.exactInt?)
  | _ => none

/-! ## Operators -/

theorem UnaryOp.apply_ofInt (op : UnaryOp) (a : Int) :
    op.apply (.int (Int64.ofInt a)) = .ok (.int (Int64.ofInt (op.onExactInt a))) := by
  cases op with
  | plus => rfl
  | minus =>
    rw [onExactInt, Int64.ofInt_neg]
    rfl

theorem BinaryOp.apply_ofInt {op : BinaryOp} {f : Int → Int → Int} (h : op.onExactInts? = some f)
    (a b : Int) :
    op.apply (.int (Int64.ofInt a)) (.int (Int64.ofInt b)) = .ok (.int (Int64.ofInt (f a b))) := by
  cases op <;> cases h
  case add =>
    rw [Int64.ofInt_add]
    rfl
  case sub =>
    rw [Int64.ofInt_sub]
    rfl
  case mul =>
    rw [Int64.ofInt_mul]
    rfl

/-! ## Expressions -/

namespace Eval

variable {m : Machine} {fuel : Nat} {e : Expr}

/-- An expression for whose levels there is fuel and depth is evaluated as its parts say, one level
deeper. -/
theorem runOn_expr_of_node {v : Value} (hfuel : e.height ≤ fuel) (hleft : e.height ≤ m.levelsLeft)
    (hnode : ∀ fuel (m : Machine), e.height ≤ fuel + 1 → e.height ≤ m.levelsLeft + 1 →
      (node (expr fuel) (call fuel) e).runOn m = (.ok v, m)) :
    (expr fuel e).runOn m = (.ok v, m) := by
  have hpos := e.height_pos
  obtain ⟨fuel, rfl⟩ := Nat.exists_eq_add_one_of_ne_zero (Nat.ne_of_gt (hpos.trans_le hfuel))
  simp only [Machine.levelsLeft] at hleft hnode
  have hroom : ¬ m.limits.evaluations ≤ m.depth := by omega
  have hparts := hnode fuel { m with depth := m.depth + 1 } hfuel (by dsimp only; omega)
  exact runOn_nested_room hroom hparts

theorem runOn_expr_exactInt (e : Expr) {z : Int} (h : e.exactInt? = some z) {fuel : Nat}
    {m : Machine} (hfuel : e.height ≤ fuel) (hleft : e.height ≤ m.levelsLeft) :
    (expr fuel e).runOn m = (.ok (.int (Int64.ofInt z)), m) := by
  refine runOn_expr_of_node hfuel hleft fun fuel m hfuel hleft => ?_
  match e with
  | .int n =>
    cases h
    rw [Int64.ofInt_toInt]
    rfl
  | .unary op e =>
    obtain ⟨a, he, rfl⟩ := Option.map_eq_some_iff.mp h
    rw [Expr.height] at hfuel hleft
    rw [node, runOn_bind_ok (runOn_expr_exactInt e he (by omega) (by omega)), op.apply_ofInt]
    rfl
  | .binary op lhs rhs =>
    obtain ⟨f, hf, h⟩ := Option.bind_eq_some_iff.mp h
    obtain ⟨a, hlhs, h⟩ := Option.bind_eq_some_iff.mp h
    obtain ⟨b, hrhs, h⟩ := Option.bind_eq_some_iff.mp h
    cases h
    rw [Expr.height] at hfuel hleft
    rw [node, runOn_bind_ok (runOn_expr_exactInt lhs hlhs (by omega) (by omega)),
      runOn_bind_ok (runOn_expr_exactInt rhs hrhs (by omega) (by omega)), BinaryOp.apply_ofInt hf]
    rfl
  | .null | .float _ | .string _ | .name _ | .call _ _ => cases h

/-- An expression of integers, signs, sums, differences and products that is no higher than the depth
may still grow evaluates to its exact value reduced to 64 bits in two's complement. -/
theorem value_exactInt {m : Machine} {e : Expr} {z : Int} (h : e.exactInt? = some z)
    (hheight : e.height ≤ m.levelsLeft) :
    ∃ n : Int64, (value e).runOn m = (.ok (.int n), m) ∧ n.toInt = z.bmod (2 ^ 64) :=
  ⟨Int64.ofInt z, runOn_expr_exactInt e h hheight hheight, Int64.toInt_ofInt⟩

/-- The smallest integer behind a minus sign, which has no opposite of 64 bits, and a product that
does not fit either. -/
def overflowing : Expr :=
  .binary .add (.unary .minus (.int Int64.minValue))
    (.binary .mul (.int Int64.maxValue) (.int Int64.maxValue))

/-- A machine that may evaluate on three levels. -/
def threeLevels : Machine := { builtins := {}, limits := { evaluations := 3 } }

theorem value_exactInt_overflowing :
    overflowing.exactInt? = some (2 ^ 63 + (2 ^ 63 - 1) * (2 ^ 63 - 1)) ∧
      overflowing.height ≤ threeLevels.levelsLeft ∧
      ∃ n : Int64, (value overflowing).runOn threeLevels = (.ok (.int n), threeLevels) ∧
        n.toInt = 1 - 2 ^ 63 := by
  have hexact : overflowing.exactInt? = some (2 ^ 63 + (2 ^ 63 - 1) * (2 ^ 63 - 1)) := by decide
  have hheight : overflowing.height ≤ threeLevels.levelsLeft := by
    simp [overflowing, threeLevels, Machine.levelsLeft, Expr.height]
  obtain ⟨n, hrun, hn⟩ := value_exactInt hexact hheight
  exact ⟨hexact, hheight, n, hrun, hn.trans (by decide)⟩

end Eval

end Scriptlet
