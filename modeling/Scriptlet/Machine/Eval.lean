-- SUMMARY: Evaluating expressions, carrying out statements and calling functions.
import Scriptlet.Machine.State
import Scriptlet.Value.Arith

/-!
# Evaluation

Operands and arguments are evaluated from left to right. A called name is
resolved before its arguments are evaluated, and their number is checked after.
A function binds its parameters in a scope of its own, where the default value
of a parameter sees those before it; its body runs up to the first `return`.

Every evaluation of an expression and every call of a function counts towards
the depth. The recursion runs on fuel, one unit for each level; as many units as
the depth may still grow are always enough.
-/
namespace Scriptlet

/-- Why an evaluation ends without a value. -/
inductive Halt where
  /-- The program asked to end. -/
  | exit (status : Int32)
  | error (error : RuntimeError)
  /-- The fuel was used up before the depth reached its limit. -/
  | starved
  deriving Repr, DecidableEq

/-- An action of the machine. -/
abbrev Eval (α : Type) := Action Machine Halt α

namespace Eval

-- ---------------------------------------------------------------------------
-- Steps of the machine
-- ---------------------------------------------------------------------------

/-- Ends with a fault. -/
def fail {α : Type} (e : RuntimeError) : Eval α := throw (.error e)

/-- The result of something that may fail. -/
def lift {α : Type} (result : Except RuntimeError α) : Eval α :=
  match result with
  | .ok a => return a
  | .error e => fail e

/-- Changes the machine in a way that may fail. -/
def update (step : Machine → Except RuntimeError Machine) : Eval Unit := do
  set (← lift (step (← get)))

/-- The value of a name. -/
def resolve (ident : String) : Eval Value := do lift ((← get).resolve ident)

/-- Declares a variable of the active call. -/
def declare (ident : String) (value : Value) (mutability : Mutability) : Eval Unit :=
  update (·.declare ident value mutability)

/-- Assigns to a variable. -/
def assign (ident : String) (value : Value) : Eval Unit := update (·.assign ident value)

/-- Fails unless the number of arguments is accepted. -/
def checkArity (ident : String) (least greatest received : Nat) : Eval Unit :=
  if least ≤ received ∧ received ≤ greatest then return ()
  else fail (.arity ident least greatest received)

/-- Evaluates or calls one level deeper. -/
def nested {α : Type} (x : Eval α) : Eval α := do
  let m ← get
  if m.limits.evaluations ≤ m.depth then fail (.tooDeep .evaluation m.limits.evaluations)
  set { m with depth := m.depth + 1 }
  x.thenAlways fun m => { m with depth := m.depth - 1 }

/-- Runs with the scope of a new call, which ends with it. -/
def inFrame {α : Type} (x : Eval α) : Eval α := do
  modify fun m => { m with frames := {} :: m.frames }
  x.thenAlways fun m => { m with frames := m.frames.tail }

-- ---------------------------------------------------------------------------
-- Functions and builtins
-- ---------------------------------------------------------------------------

/-- Carries out a statement. Returns the value of a `return`. -/
def stmt (eval : Expr → Eval Value) : Stmt → Eval (Option Value)
  | .const ident e => do
    declare ident (← eval e) .constant
    return none
  | .var ident e => do
    declare ident (← eval e) .mutable
    return none
  | .assign ident e => do
    assign ident (← eval e)
    return none
  | .ret e => some <$> eval e
  | .expr e => do
    let _ ← eval e
    return none

/-- Carries out statements up to the first `return`. Without one the value is null. -/
def body (eval : Expr → Eval Value) : List Stmt → Eval Value
  | [] => return .null
  | s :: ss => do
    match ← stmt eval s with
    | some v => return v
    | none => body eval ss

/-- Binds required parameters. Returns the arguments that are left. -/
def bindRequired : List String → List Value → Eval (List Value)
  | p :: ps, v :: vs => do
    declare p v .mutable
    bindRequired ps vs
  | _, vs => return vs

/-- Binds optional parameters, to arguments as long as there are any. -/
def bindOptional (eval : Expr → Eval Value) : List OptionalParam → List Value → Eval Unit
  | [], _ => return ()
  | p :: ps, v :: vs => do
    declare p.ident v .mutable
    bindOptional eval ps vs
  | p :: ps, [] => do
    declare p.ident (← eval p.default) .mutable
    bindOptional eval ps []

/-- Runs a function in the scope of its call. -/
def enter (eval : Expr → Eval Value) (f : Function) (args : List Value) : Eval Value := do
  let others ← bindRequired f.required args
  bindOptional eval f.optional others
  body eval f.body

/-- Fails if the function does not accept the arguments, or if no call may be added. -/
def allowCall (f : Function) (args : List Value) : Eval Unit := do
  checkArity f.ident f.minArgs f.maxArgs args.length
  let m ← get
  if m.limits.calls ≤ m.frames.length then fail (.tooDeep .call m.limits.calls)

/-- Calls a builtin. -/
def callBuiltin (b : Builtin) (args : List Value) : Eval Value := do
  checkArity b.ident b.least b.greatest args.length
  let m ← get
  let (result, sink) := (b.routine.carryOut args).runOn m.sink
  set { m with sink }
  match result with
  | .ok v => return v
  | .error (.exit status) => throw (.exit status)
  | .error (.type e) => fail (.type e)
  | .error (.output e) => fail (.output e)
  | .error .missingArgument => fail .missingArgument

-- ---------------------------------------------------------------------------
-- Expressions
-- ---------------------------------------------------------------------------

/-- Evaluates expressions from left to right. -/
def list (eval : Expr → Eval Value) : List Expr → Eval (List Value)
  | [] => return []
  | e :: es => do
    let v ← eval e
    let vs ← list eval es
    return v :: vs

/-- Evaluates a call of the name. -/
def namedCall (eval : Expr → Eval Value) (call : Function → List Value → Eval Value)
    (ident : String) (args : List Expr) : Eval Value := do
  let m ← get
  match m.functions.get? ident, m.builtins.get? ident with
  | some f, _ => call f (← list eval args)
  | none, some b => callBuiltin b (← list eval args)
  | none, none =>
    match m.resolve ident with
    | .ok _ => fail (.type (.variableCalled ident))
    | .error _ => fail (.unresolved ident)

/-- Evaluates an expression, given how to evaluate those in it and how to call a function. -/
def node (eval : Expr → Eval Value) (call : Function → List Value → Eval Value) :
    Expr → Eval Value
  | .null => return .null
  | .int n => return .int n
  | .float x => return .float x
  | .string s => return .string s
  | .name ident => resolve ident
  | .unary op e => do lift (op.apply (← eval e))
  | .binary op lhs rhs => do
    let a ← eval lhs
    let b ← eval rhs
    lift (op.apply a b)
  | .call (.name ident) args => namedCall eval call ident args
  | .call callee _ => do
    let v ← eval callee
    fail (.type (.valueCalled v.ty))

mutual

/-- Evaluates an expression. -/
def expr : (fuel : Nat) → Expr → Eval Value
  | 0, _ => nested (throw .starved)
  | fuel + 1, e => nested (node (expr fuel) (call fuel) e)

/-- Calls a function. -/
def call : (fuel : Nat) → Function → List Value → Eval Value
  | 0, f, args => do
    allowCall f args
    nested (throw .starved)
  | fuel + 1, f, args => do
    allowCall f args
    nested (inFrame (enter (expr fuel) f args))

end

end Eval

/-- How many levels the depth may still grow. -/
def Machine.levelsLeft (m : Machine) : Nat := m.limits.evaluations - m.depth

/-- Evaluates an expression with the fuel that the machine's limits allow. -/
def Eval.value (e : Expr) : Eval Value := do Eval.expr (← get).levelsLeft e

end Scriptlet
