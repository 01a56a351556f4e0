-- SUMMARY: Arithmetic on values.
import Scriptlet.Machine.Error

/-!
# Arithmetic

Integers give integers, modulo `2 ^ 64`; their division drops the fraction. A
float on either side makes both operands floats. Other values are no numbers.
Nothing is divided by zero, be it an integer or a float of either sign.
-/
namespace Scriptlet

/-- A sign before a value. -/
def UnaryOp.apply (op : UnaryOp) (v : Value) : Except RuntimeError Value :=
  match op, v with
  | .plus, .int n => .ok (.int n)
  | .plus, .float x => .ok (.float x)
  | .minus, .int n => .ok (.int (-n))
  | .minus, .float x => .ok (.float (-x))
  | op, v => .error (.type (.unaryOperand op v.ty))

/-- An operator between two integers, the right one of which is not zero in a division. -/
def BinaryOp.onInts : BinaryOp → Int64 → Int64 → Int64
  | .add, a, b => a + b
  | .sub, a, b => a - b
  | .mul, a, b => a * b
  | .div, a, b => a / b

/-- An operator between two floats. -/
def BinaryOp.onFloats : BinaryOp → Float → Float → Float
  | .add, a, b => a + b
  | .sub, a, b => a - b
  | .mul, a, b => a * b
  | .div, a, b => a / b

/-- An operator between two values. A float on either side makes both of them floats before the
right one is tested for zero. -/
def BinaryOp.apply (op : BinaryOp) (lhs rhs : Value) : Except RuntimeError Value :=
  match lhs, rhs with
  | .int a, .int b =>
    if op = .div ∧ b = 0 then .error .divisionByZero else .ok (.int (op.onInts a b))
  | _, _ =>
    match lhs.toFloat?, rhs.toFloat? with
    | some a, some b =>
      if op = .div ∧ b == 0 then .error .divisionByZero else .ok (.float (op.onFloats a b))
    | _, _ => .error (.type (.binaryOperands op lhs.ty rhs.ty))

end Scriptlet
