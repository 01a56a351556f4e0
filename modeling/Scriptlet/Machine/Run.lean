-- SUMMARY: Running programs on a machine: functions first, then variables in order, then the flush.
import Scriptlet.Machine.Eval

/-!
# Runs

A run declares all functions of a program before it evaluates anything, and then
the variables in the order they were written. It ends with no call active, and
the sink is flushed whatever happened; a flush that fails is what the run
reports. Variables and functions stay, so that another run can go on from them.
-/
namespace Scriptlet

/-- How a run ends that does not fail. -/
inductive Outcome where
  | completed
  | exited (status : Int32)
  deriving Repr, DecidableEq

/-- The exit status of a run that does not fail. -/
def Outcome.status : Outcome → Int32
  | .completed => 0
  | .exited status => status

namespace Eval

/-- Declares functions. -/
def functions : List Function → Eval Unit
  | [] => return ()
  | f :: fs => do
    update (·.declareFunction f)
    functions fs

/-- Evaluates and declares global variables. Functions among the declarations are skipped. -/
def globals : List Decl → Eval Unit
  | [] => return ()
  | .const ident e :: ds => do
    let v ← value e
    update (·.declareGlobal ident v .constant)
    globals ds
  | .var ident e? :: ds => do
    let v ← match e? with
      | some e => value e
      | none => pure .null
    update (·.declareGlobal ident v .mutable)
    globals ds
  | .func _ :: ds => globals ds

/-- Carries out a program's declarations. -/
def program (p : Program) : Eval Unit := do
  functions p.functions
  globals p.decls

end Eval

namespace Machine

/-- The machine with no call active. -/
def atRest (m : Machine) : Machine := { m with frames := [], depth := 0 }

/-- The result of a run, from how its evaluation ended. Fuel for as many levels as the depth
may grow is never used up before the depth; that it is counts as nesting too deep. -/
def resultOf (m : Machine) : Except Halt Unit → Except RuntimeError Outcome
  | .ok () => .ok .completed
  | .error (.exit status) => .ok (.exited status)
  | .error (.error e) => .error e
  | .error .starved => .error (.tooDeep .evaluation m.limits.evaluations)

/-- Runs a program. -/
def run (m : Machine) (p : Program) : Except RuntimeError Outcome × Machine :=
  let (ended, m) := (Eval.program p).runOn m
  let m := m.atRest
  match m.sink.flush with
  | .error e => (.error (.output e), m)
  | .ok () => (m.resultOf ended, m)

end Machine

end Scriptlet
