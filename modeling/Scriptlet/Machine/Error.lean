-- SUMMARY: The faults of a running program and their wording.
import Scriptlet.Expr
import Scriptlet.Value

/-!
# Runtime errors

The first fault ends a run. Faults of the types of values are told apart by what
was tried; each has one wording.
-/
namespace Scriptlet

/-- A value of the wrong type, or a name of the wrong kind. -/
inductive TypeError where
  /-- A function was read like a variable. -/
  | functionRead (ident : String)
  /-- A variable was called. -/
  | variableCalled (ident : String)
  /-- The value of an expression was called. -/
  | valueCalled (ty : Value.Ty)
  | unaryOperand (op : UnaryOp) (ty : Value.Ty)
  | binaryOperands (op : BinaryOp) (lhs rhs : Value.Ty)
  | statusNotInt (ty : Value.Ty)
  | statusOutOfRange (status : Int64)
  deriving Repr, DecidableEq

/-- The fault in words. -/
def TypeError.message : TypeError → String
  | .functionRead ident => s!"`{ident}` is a function, not a value"
  | .variableCalled ident => s!"`{ident}` is not a function"
  | .valueCalled ty => s!"{ty.name} value is not callable"
  | .unaryOperand op ty => s!"bad operand type for unary `{op.mark}`: {ty.name}"
  | .binaryOperands op lhs rhs =>
    s!"unsupported operand types for `{op.mark}`: {lhs.name} and {rhs.name}"
  | .statusNotInt ty => s!"exit status must be an int, not {ty.name}"
  | .statusOutOfRange status => s!"exit status {status.toInt} is out of range"

/-- Why output could not be written. -/
inductive WriteError where
  | sinkFull
  | flushFailed
  deriving Repr, DecidableEq

/-- The fault in words. -/
def WriteError.message : WriteError → String
  | .sinkFull => "sink full"
  | .flushFailed => "flush failed"

/-- What is bounded: the calls that are active, or evaluations and calls together. -/
inductive DepthKind where
  | call
  | evaluation
  deriving Repr, DecidableEq

/-- How a message names the bound. -/
def DepthKind.display : DepthKind → String
  | .call => "call"
  | .evaluation => "evaluation"

/-- Why a run failed. -/
inductive RuntimeError where
  | unresolved (ident : String)
  | alreadyDeclared (ident : String)
  | constantAssigned (ident : String)
  | type (error : TypeError)
  | arity (function : String) (least greatest received : Nat)
  | divisionByZero
  | tooDeep (kind : DepthKind) (limit : Nat)
  | output (error : WriteError)
  /-- A builtin was called without an argument that it reads. No arity that fits the
  builtin lets that happen. -/
  | missingArgument
  deriving Repr, DecidableEq

/-- The fault in words. -/
def RuntimeError.message : RuntimeError → String
  | .unresolved ident => s!"cannot resolve name `{ident}`"
  | .alreadyDeclared ident => s!"`{ident}` is already declared in this scope"
  | .constantAssigned ident => s!"cannot assign to constant `{ident}`"
  | .type error => error.message
  | .arity function least greatest received =>
    let accepted := if least = greatest then s!"{least}" else s!"{least} to {greatest}"
    s!"function `{function}` expects {accepted} arguments, received {received}"
  | .divisionByZero => "division by zero"
  | .tooDeep kind limit => s!"maximum {kind.display} depth of {limit} exceeded"
  | .output error => s!"could not write output: {error.message}"
  | .missingArgument => "missing argument"

end Scriptlet
