-- SUMMARY: Reading expressions: operators by binding power, calls, literals and nesting.
import Scriptlet.Expr
import Scriptlet.Parse.Cursor
import Scriptlet.Decimal.Numeral
import Scriptlet.Decimal.Reader

/-!
# Reading expressions

A primary expression is a literal, a name, a call, a signed primary expression
or an expression in parentheses. Primary expressions are joined by binary
operators; an operator takes its right operand with its right binding power, so
that chains lean to the left and products bind more strongly than sums.

Primary expressions nest through parentheses, signs and arguments. How deep they
may still nest is what the recursion runs on. The loops over operators and
arguments consume a token in each round, or fail.
-/
namespace Scriptlet

/-- The binary operator that a token stands for. -/
def Token.Kind.binaryOp? : Token.Kind → Option BinaryOp
  | .plus => some .add
  | .minus => some .sub
  | .star => some .mul
  | .slash => some .div
  | _ => none

/-- How strongly a token binds as a binary operator, if it is one. -/
def Token.Kind.bindingPower? (kind : Token.Kind) : Option (Nat × Nat) :=
  kind.binaryOp?.map BinaryOp.bindingPower

namespace Parse

-- ---------------------------------------------------------------------------
-- Leaves
-- ---------------------------------------------------------------------------

/-- Consumes the current token as a tree of height one. -/
def leaf (e : Expr) : Parse Expr := do
  advance
  modify fun c => { c with height := 1 }
  return e

/-- Reads a number literal, whose text must denote a number in range. -/
def number {α : Type} (read? : List Char → Option α) (make : α → Expr) : Parse Expr := do
  let token ← current
  let text := token.text.getD ""
  match read? text.toList with
  | some value => leaf (make value)
  | none => throw (.numberOutOfRange text token.start)

/-- Reads a name. -/
def name : Parse Expr := do
  let ident ← ident
  modify fun c => { c with height := 1 }
  return .name ident

-- ---------------------------------------------------------------------------
-- Calls
-- ---------------------------------------------------------------------------

/-- Reads arguments up to the closing parenthesis, the first of which starts here. Returns
them with the height of the highest one and of `highest`, those before them. -/
def arguments (expr : Parse Expr) :
    (rounds : List Token) → (highest : Nat) → Parse (List Expr × Nat)
  | [], _ => unexpected .commaOrCloseParen
  | _ :: rounds, highest => do
    let arg ← expr
    let highest := max highest (← get).height
    if ← eat .closeParen then return ([arg], highest)
    else if ← eat .comma then
      let (args, highest) ← arguments expr rounds highest
      return (arg :: args, highest)
    else unexpected .commaOrCloseParen

/-- Reads a call: a name and arguments in parentheses, without a comma after the last. -/
def call (expr : Parse Expr) : Parse Expr := do
  let start := (← current).start
  let ident ← ident
  expect .openParen
  let (args, highest) ← if ← eat .closeParen then pure ([], 0) else arguments expr (← rounds) 0
  grow highest start
  return .call (.name ident) args

-- ---------------------------------------------------------------------------
-- Operators
-- ---------------------------------------------------------------------------

/-- Reads a sign and its operand. -/
def signed (op : UnaryOp) (operand : Parse Expr) : Parse Expr := do
  let start := (← current).start
  advance
  let e ← operand
  grow (← get).height start
  return .unary op e

/-- The operator at the cursor, if there is one that binds its left operand with at least the
given power. -/
def operator? (least : Nat) : Parse (Option BinaryOp) := do
  match (← current).kind.binaryOp? with
  | some op => return if op.bindingPower.1 < least then none else some op
  | none => return none

/-- Reads on behind a left operand while an operator binds it with at least the given power.
`operand` reads a right operand whose operators bind with at least its argument. -/
def chain (operand : Nat → Parse Expr) (least : Nat) :
    (rounds : List Token) → Expr → Parse Expr
  | [], lhs => return lhs
  | _ :: rounds, lhs => do
    match ← operator? least with
    | none => return lhs
    | some op =>
      let start := (← current).start
      let below := (← get).height
      advance
      let rhs ← operand op.bindingPower.2
      grow (max below (← get).height) start
      chain operand least rounds (.binary op lhs rhs)

/-- Reads an expression whose operators bind with at least the given power. `levels` bounds
how often binding powers can rise. -/
def operators (primary : Parse Expr) : (levels least : Nat) → Parse Expr
  | 0, _ => primary
  | levels + 1, least => do
    let lhs ← primary
    chain (operators primary levels) least (← rounds) lhs

/-- How many levels of operators an expression has: its sums, the right operands of these, and
the right operands of products, which no operator binds more strongly than. -/
def operatorLevels : Nat := 3

-- ---------------------------------------------------------------------------
-- Primary expressions
-- ---------------------------------------------------------------------------

/-- Reads an expression in parentheses. -/
def parenthesized (expr : Parse Expr) : Parse Expr := do
  advance
  let e ← expr
  expect .closeParen
  return e

/-- Reads a primary expression, given how to read those inside it. -/
def atom (primary : Parse Expr) : Parse Expr := do
  let expr := operators primary operatorLevels 0
  let c ← get
  match c.current.kind with
  | .integer => number Decimal.readInt64? .int
  | .float => number Decimal.readFloat? .float
  | .string => leaf (.string (c.current.text.getD ""))
  | .null => leaf .null
  | .identifier => if c.next.kind = .openParen then call expr else name
  | .plus => signed .plus primary
  | .minus => signed .minus primary
  | .openParen => parenthesized expr
  | _ => unexpected .expression

/-- Reads a primary expression with at most `levels` of them nested. -/
def primary : (levels : Nat) → Parse Expr
  | 0 => do throw (.nestingTooDeep (← current).start)
  | levels + 1 => nested (atom (primary levels))

/-- Reads an expression whose operators bind with at least the given power. -/
def exprOver (least : Nat) : Parse Expr := operators (primary maxNesting) operatorLevels least

/-- Reads an expression. -/
def expr : Parse Expr := exprOver 0

end Parse

end Scriptlet
