-- SUMMARY: Expressions of the language, their operators and the height of a tree.

/-!
# Expressions

Expressions as trees. Any expression may stand where a function is called;
whether it can be called is decided when it is evaluated.
-/
namespace Scriptlet

/-- The operators before an operand. -/
inductive UnaryOp where
  | plus
  | minus
  deriving Repr, DecidableEq

/-- The operators between two operands. -/
inductive BinaryOp where
  | add
  | sub
  | mul
  | div
  deriving Repr, DecidableEq

/-- How an operator is written. -/
def UnaryOp.mark : UnaryOp → String
  | .plus => "+"
  | .minus => "-"

/-- How an operator is written. -/
def BinaryOp.mark : BinaryOp → String
  | .add => "+"
  | .sub => "-"
  | .mul => "*"
  | .div => "/"

/-- How strongly an operator binds the operand on its left and the one on its right.
Multiplication binds more strongly than addition, and each operator binds the right
operand a little more than the left one, which makes chains lean to the left. -/
def BinaryOp.bindingPower : BinaryOp → Nat × Nat
  | .add | .sub => (1, 2)
  | .mul | .div => (3, 4)

/-- An expression. -/
inductive Expr where
  | null
  | int (value : Int64)
  | float (value : Float)
  | string (value : String)
  | name (ident : String)
  | unary (op : UnaryOp) (operand : Expr)
  | binary (op : BinaryOp) (lhs rhs : Expr)
  | call (callee : Expr) (args : List Expr)
  deriving Repr

namespace Expr

mutual

/-- The number of levels of a tree. A call counts one level above its highest argument;
what is called does not count. -/
def height : Expr → Nat
  | .null | .int _ | .float _ | .string _ | .name _ => 1
  | .unary _ operand => operand.height + 1
  | .binary _ lhs rhs => max lhs.height rhs.height + 1
  | .call _ args => maxHeight args + 1

/-- The height of the highest of some trees, zero if there are none. -/
def maxHeight : List Expr → Nat
  | [] => 0
  | e :: es => max e.height (maxHeight es)

end

end Expr

end Scriptlet
