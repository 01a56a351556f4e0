-- SUMMARY: The meaning of programs as inductive rules that know no call stack and no limits.
import Scriptlet.Machine.Run
import Scriptlet.Proofs.Expressions

/-!
# The meaning of programs

What programs do, as rules from which each evaluation is derived. The rules pass
along the global variables, the output, and the variables of at most one call.
There is no stack of calls, nothing is counted, and no evaluation ends because
it nests too deep: a program that recurses for ever has no derivation.

A rule that ends in a halt abandons all that was pending around it.
-/
namespace Scriptlet.Semantics

/-- How an evaluation ends. No rule below ends one at a limit or by starving. -/
abbrev Result (α : Type) := Except Halt α

/-- A fault ends an evaluation. -/
def orHalt {α : Type} (result : Except RuntimeError α) : Result α := result.mapError .error

/-- What the names of functions stand for. -/
structure Callables where
  builtins : Builtins
  functions : Table Function

/-- Can the name be called? -/
def Callables.contains (Γ : Callables) (ident : String) : Bool :=
  Γ.functions.contains ident || Γ.builtins.contains ident

/-- What an evaluation may change besides the variables of the active call. -/
structure World where
  globals : Scope
  sink : Sink

/-! ## Variables -/

/-- The value of a name: that of a variable of the active call, or else of a global one. -/
def read (Γ : Callables) (ρ : Option Scope) (w : World) (ident : String) :
    Except RuntimeError Value :=
  match (ρ.bind (·.value? ident)).or (w.globals.value? ident) with
  | some v => .ok v
  | none => .error (if Γ.contains ident then .type (.functionRead ident) else .unresolved ident)

/-- Assigns to a variable of the active call if the call has one of the name, and to a
global one otherwise. -/
def assign (ρ : Scope) (w : World) (ident : String) (v : Value) :
    Except RuntimeError (Scope × World) :=
  if ρ.contains ident then
    ((ρ.assign ident v).mapError (AssignError.toRuntimeError ident)).map fun ρ => (ρ, w)
  else
    ((w.globals.assign ident v).mapError (AssignError.toRuntimeError ident)).map
      fun globals => (ρ, { w with globals })

/-- Is the name taken in the space of global names? -/
def taken (Γ : Callables) (globals : Scope) (ident : String) : Bool :=
  globals.contains ident || Γ.contains ident

/-- Declares a global variable, whose name must be free. -/
def declareGlobal (Γ : Callables) (w : World) (ident : String) (v : Value)
    (mutability : Mutability) : Except RuntimeError World :=
  if taken Γ w.globals ident then .error (.alreadyDeclared ident)
  else .ok { w with globals := w.globals.insert ident ⟨v, mutability⟩ }

/-! ## Statements, parameters and builtins -/

/-- Does the statement end the body that it is in? -/
def returns : Stmt → Bool
  | .ret _ => true
  | _ => false

/-- What a statement that does not return does with the value of its expression. -/
def effect (s : Stmt) (v : Value) (ρ : Scope) (w : World) : Except RuntimeError (Scope × World) :=
  match s with
  | .const ident _ => (ρ.declare ident v .constant).map fun ρ => (ρ, w)
  | .var ident _ => (ρ.declare ident v .mutable).map fun ρ => (ρ, w)
  | .assign ident _ => assign ρ w ident v
  | .ret _ | .expr _ => .ok (ρ, w)

/-- A parameter: its name, and the default value of an optional one. -/
structure Param where
  ident : String
  default : Option Expr

/-- The parameters of a function in the order in which they are bound. -/
def params (f : Function) : List Param :=
  f.required.map (⟨·, none⟩) ++ f.optional.map fun p => ⟨p.ident, some p.default⟩

/-- Does the function accept so many arguments? -/
abbrev accepts (least greatest received : Nat) : Prop :=
  least ≤ received ∧ received ≤ greatest

/-- How a call ends in which a builtin does not return. -/
def haltOf : BuiltinError → Halt
  | .exit status => .exit status
  | .type e => .error (.type e)
  | .output e => .error (.output e)
  | .missingArgument => .error .missingArgument

/-- What a builtin gives for arguments that it accepts, and the world it leaves. -/
def carryOut (b : Builtin) (vs : List Value) (w : World) : Result Value × World :=
  let (result, sink) := (b.routine.carryOut vs).runOn w.sink
  (result.mapError haltOf, { w with sink })

/-! ## Evaluation -/

section
variable (Γ : Callables)

mutual

/-- `Evaluates Γ ρ w e r w'`: in the active call's variables `ρ`, if a call is active, and the
world `w`, the expression `e` ends as `r` and leaves the world `w'`. -/
inductive Evaluates : Option Scope → World → Expr → Result Value → World → Prop
  | null : Evaluates ρ w .null (.ok .null) w
  | int : Evaluates ρ w (.int n) (.ok (.int n)) w
  | float : Evaluates ρ w (.float x) (.ok (.float x)) w
  | string : Evaluates ρ w (.string s) (.ok (.string s)) w
  | name : Evaluates ρ w (.name x) (orHalt (read Γ ρ w x)) w
  | unary : Evaluates ρ w e (.ok v) w₁ → Evaluates ρ w (.unary op e) (orHalt (op.apply v)) w₁
  | unaryHalt : Evaluates ρ w e (.error h) w₁ → Evaluates ρ w (.unary op e) (.error h) w₁
  | binary : Evaluates ρ w a (.ok u) w₁ → Evaluates ρ w₁ b (.ok v) w₂ →
      Evaluates ρ w (.binary op a b) (orHalt (op.apply u v)) w₂
  | binaryLeftHalt : Evaluates ρ w a (.error h) w₁ → Evaluates ρ w (.binary op a b) (.error h) w₁
  | binaryRightHalt : Evaluates ρ w a (.ok u) w₁ → Evaluates ρ w₁ b (.error h) w₂ →
      Evaluates ρ w (.binary op a b) (.error h) w₂
  /-- A declared function is called under its name, whatever builtins there are. -/
  | call : Γ.functions.get? x = some f → EvaluatesAll ρ w es (.ok vs) w₁ → Calls w₁ f vs r w₂ →
      Evaluates ρ w (.call (.name x) es) r w₂
  | callBuiltin : Γ.functions.get? x = none → Γ.builtins.get? x = some b →
      EvaluatesAll ρ w es (.ok vs) w₁ → accepts b.least b.greatest vs.length →
      Evaluates ρ w (.call (.name x) es) (carryOut b vs w₁).1 (carryOut b vs w₁).2
  | callBuiltinArity : Γ.functions.get? x = none → Γ.builtins.get? x = some b →
      EvaluatesAll ρ w es (.ok vs) w₁ → ¬ accepts b.least b.greatest vs.length →
      Evaluates ρ w (.call (.name x) es)
        (.error (.error (.arity b.ident b.least b.greatest vs.length))) w₁
  | callArgsHalt : Γ.contains x → EvaluatesAll ρ w es (.error h) w₁ →
      Evaluates ρ w (.call (.name x) es) (.error h) w₁
  /-- What is no function fails before any argument is evaluated. -/
  | callVariable : ¬ Γ.contains x → read Γ ρ w x = .ok v →
      Evaluates ρ w (.call (.name x) es) (.error (.error (.type (.variableCalled x)))) w
  | callUnresolved : ¬ Γ.contains x → read Γ ρ w x = .error e →
      Evaluates ρ w (.call (.name x) es) (.error (.error (.unresolved x))) w
  | callValue : (∀ x, callee ≠ .name x) → Evaluates ρ w callee (.ok v) w₁ →
      Evaluates ρ w (.call callee es) (.error (.error (.type (.valueCalled v.ty)))) w₁
  | callValueHalt : (∀ x, callee ≠ .name x) → Evaluates ρ w callee (.error h) w₁ →
      Evaluates ρ w (.call callee es) (.error h) w₁

/-- Expressions from left to right. -/
inductive EvaluatesAll : Option Scope → World → List Expr → Result (List Value) → World → Prop
  | nil : EvaluatesAll ρ w [] (.ok []) w
  | cons : Evaluates ρ w e (.ok v) w₁ → EvaluatesAll ρ w₁ es (.ok vs) w₂ →
      EvaluatesAll ρ w (e :: es) (.ok (v :: vs)) w₂
  | headHalt : Evaluates ρ w e (.error h) w₁ → EvaluatesAll ρ w (e :: es) (.error h) w₁
  | tailHalt : Evaluates ρ w e (.ok v) w₁ → EvaluatesAll ρ w₁ es (.error h) w₂ →
      EvaluatesAll ρ w (e :: es) (.error h) w₂

/-- A call of a function: the number of arguments is checked, the parameters are bound in
variables of its own, and the body is carried out. -/
inductive Calls : World → Function → List Value → Result Value → World → Prop
  | arity : ¬ accepts f.minArgs f.maxArgs vs.length →
      Calls w f vs (.error (.error (.arity f.ident f.minArgs f.maxArgs vs.length))) w
  | body : accepts f.minArgs f.maxArgs vs.length → Binds {} w (params f) vs (.ok ρ) w₁ →
      Executes ρ w₁ f.body r w₂ → Calls w f vs r w₂
  | bindHalt : accepts f.minArgs f.maxArgs vs.length → Binds {} w (params f) vs (.error h) w₁ →
      Calls w f vs (.error h) w₁

/-- Parameters are bound to arguments as long as there are any, and then to the values of
their defaults, which see the parameters before them. -/
inductive Binds : Scope → World → List Param → List Value → Result Scope → World → Prop
  | done : Binds ρ w [] vs (.ok ρ) w
  | argument : ρ.declare p.ident v .mutable = .ok ρ₁ → Binds ρ₁ w ps vs r w₁ →
      Binds ρ w (p :: ps) (v :: vs) r w₁
  | argumentFault : ρ.declare p.ident v .mutable = .error e →
      Binds ρ w (p :: ps) (v :: vs) (.error (.error e)) w
  | default : Evaluates (some ρ) w e (.ok v) w₁ → ρ.declare x v .mutable = .ok ρ₁ →
      Binds ρ₁ w₁ ps [] r w₂ → Binds ρ w (⟨x, some e⟩ :: ps) [] r w₂
  | defaultFault : Evaluates (some ρ) w e (.ok v) w₁ → ρ.declare x v .mutable = .error err →
      Binds ρ w (⟨x, some e⟩ :: ps) [] (.error (.error err)) w₁
  | defaultHalt : Evaluates (some ρ) w e (.error h) w₁ →
      Binds ρ w (⟨x, some e⟩ :: ps) [] (.error h) w₁

/-- Statements in order up to the first `return`. A body that ends without one gives null. -/
inductive Executes : Scope → World → List Stmt → Result Value → World → Prop
  | done : Executes ρ w [] (.ok .null) w
  | halt : Evaluates (some ρ) w s.value (.error h) w₁ → Executes ρ w (s :: ss) (.error h) w₁
  | returned : returns s = true → Evaluates (some ρ) w s.value (.ok v) w₁ →
      Executes ρ w (s :: ss) (.ok v) w₁
  | fault : returns s = false → Evaluates (some ρ) w s.value (.ok v) w₁ →
      effect s v ρ w₁ = .error e → Executes ρ w (s :: ss) (.error (.error e)) w₁
  | next : returns s = false → Evaluates (some ρ) w s.value (.ok v) w₁ →
      effect s v ρ w₁ = .ok (ρ₁, w₂) → Executes ρ₁ w₂ ss r w₃ → Executes ρ w (s :: ss) r w₃

end

/-- What a global variable begins with: null if nothing is given. -/
inductive Initial : World → Option Expr → Result Value → World → Prop
  | absent : Initial w none (.ok .null) w
  | given : Evaluates Γ none w e r w₁ → Initial w (some e) r w₁

end

/-! ## Programs -/

/-- The declaration of a global variable. -/
structure Global where
  ident : String
  initial : Option Expr
  mutability : Mutability

/-- The variable that a declaration declares, unless it declares a function. -/
def global? : Decl → Option Global
  | .const ident e => some ⟨ident, some e, .constant⟩
  | .var ident e => some ⟨ident, e, .mutable⟩
  | .func _ => none

/-- Global variables are evaluated and declared in the order they were written. -/
inductive Initializes (Γ : Callables) : World → List Decl → Result Unit → World → Prop
  | done : Initializes Γ w [] (.ok ()) w
  | func : global? d = none → Initializes Γ w ds r w₁ → Initializes Γ w (d :: ds) r w₁
  | halt : global? d = some g → Initial Γ w g.initial (.error h) w₁ →
      Initializes Γ w (d :: ds) (.error h) w₁
  | fault : global? d = some g → Initial Γ w g.initial (.ok v) w₁ →
      declareGlobal Γ w₁ g.ident v g.mutability = .error e →
      Initializes Γ w (d :: ds) (.error (.error e)) w₁
  | next : global? d = some g → Initial Γ w g.initial (.ok v) w₁ →
      declareGlobal Γ w₁ g.ident v g.mutability = .ok w₂ → Initializes Γ w₂ ds r w₃ →
      Initializes Γ w (d :: ds) r w₃

/-- Declares functions up to the first whose name is taken. -/
def hoist (builtins : Builtins) (globals : Scope) :
    List Function → Table Function → Except RuntimeError Unit × Table Function
  | [], declared => (.ok (), declared)
  | f :: fs, declared =>
    if taken ⟨builtins, declared⟩ globals f.ident then (.error (.alreadyDeclared f.ident), declared)
    else hoist builtins globals fs (declared.insert f.ident f)

/-- How a run ends after its evaluation did: the fault of a flush that fails takes the place
of everything else. -/
inductive Finishes : Result Unit → Sink → Except RuntimeError Outcome → Prop
  | unflushed : sink.flush = .error e → Finishes r sink (.error (.output e))
  | completed : sink.flush = .ok () → Finishes (.ok ()) sink (.ok .completed)
  | exited : sink.flush = .ok () → Finishes (.error (.exit status)) sink (.ok (.exited status))
  | failed : sink.flush = .ok () → Finishes (.error (.error e)) sink (.error e)

/-- What is kept from one run to the next. -/
structure Store extends World where
  functions : Table Function

/-- `Runs builtins s p out s'`: run from the store `s`, the program ends as `out` and leaves the
store `s'`. All functions are declared before anything is evaluated. -/
inductive Runs (builtins : Builtins) :
    Store → Program → Except RuntimeError Outcome → Store → Prop
  | refused : hoist builtins s.globals p.functions s.functions = (.error e, functions) →
      Finishes (.error (.error e)) s.sink out → Runs builtins s p out ⟨s.toWorld, functions⟩
  | evaluated : hoist builtins s.globals p.functions s.functions = (.ok (), functions) →
      Initializes ⟨builtins, functions⟩ s.toWorld p.decls r w → Finishes r w.sink out →
      Runs builtins s p out ⟨w, functions⟩

end Scriptlet.Semantics
