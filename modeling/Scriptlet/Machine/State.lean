-- SUMMARY: The state of the machine that runs programs, and how names are resolved and bound in it.
import Scriptlet.Builtin
import Scriptlet.Program
import Scriptlet.Scope

/-!
# The state of a machine

Global variables, functions and builtins share one space of names. Each active
call has a scope of its own; it sees its variables and the global ones, never
those of the call that made it.
-/
namespace Scriptlet

/-- How deep a program may nest. -/
structure Limits where
  /-- The greatest number of active calls. -/
  calls : Nat := 128
  /-- The greatest number of active evaluations and calls together. -/
  evaluations : Nat := 512
  deriving Repr, DecidableEq

/-- The state of a machine. -/
structure Machine where
  builtins : Builtins
  limits : Limits := {}
  globals : Scope := {}
  functions : Table Function := {}
  /-- The scopes of the active calls, the innermost first. -/
  frames : List Scope := []
  /-- The number of active evaluations and calls. -/
  depth : Nat := 0
  sink : Sink := {}

namespace Machine

-- ---------------------------------------------------------------------------
-- Names
-- ---------------------------------------------------------------------------

/-- The value of a global variable. -/
def global? (m : Machine) (ident : String) : Option Value := m.globals.value? ident

/-- The value of a variable of the active call. -/
def local? (m : Machine) (ident : String) : Option Value :=
  m.frames.head?.bind (·.value? ident)

/-- Is there a function or builtin of the name? -/
def isCallable (m : Machine) (ident : String) : Bool :=
  m.functions.contains ident || m.builtins.contains ident

/-- Is the name taken in the space of global names? -/
def isTaken (m : Machine) (ident : String) : Bool :=
  m.globals.contains ident || m.isCallable ident

/-- The value of a name: that of a variable of the active call, or else of a global one. -/
def resolve (m : Machine) (ident : String) : Except RuntimeError Value :=
  match (m.local? ident).or (m.global? ident) with
  | some v => .ok v
  | none => .error (if m.isCallable ident then .type (.functionRead ident) else .unresolved ident)

-- ---------------------------------------------------------------------------
-- Bindings
-- ---------------------------------------------------------------------------

/-- Declares a variable in the scope of the active call, or a global one outside of calls. -/
def declare (m : Machine) (ident : String) (value : Value) (mutability : Mutability) :
    Except RuntimeError Machine :=
  match m.frames with
  | [] => return { m with globals := ← m.globals.declare ident value mutability }
  | scope :: others => return { m with frames := (← scope.declare ident value mutability) :: others }

/-- Assigns to the variable of the active call, or else to the global one. -/
def assign (m : Machine) (ident : String) (value : Value) : Except RuntimeError Machine :=
  let global : Except AssignError Machine :=
    return { m with globals := ← m.globals.assign ident value }
  let assigned := match m.frames with
    | [] => global
    | scope :: others =>
      if scope.contains ident then return { m with frames := (← scope.assign ident value) :: others }
      else global
  assigned.mapError (AssignError.toRuntimeError ident)

/-- Declares a function, whose name must be free in the space of global names. -/
def declareFunction (m : Machine) (f : Function) : Except RuntimeError Machine :=
  if m.isTaken f.ident then .error (.alreadyDeclared f.ident)
  else .ok { m with functions := m.functions.insert f.ident f }

/-- Declares a global variable, whose name must be free in the space of global names. -/
def declareGlobal (m : Machine) (ident : String) (value : Value) (mutability : Mutability) :
    Except RuntimeError Machine :=
  if m.isTaken ident then .error (.alreadyDeclared ident)
  else return { m with globals := ← m.globals.declare ident value mutability }

end Machine

end Scriptlet
