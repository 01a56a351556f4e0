-- SUMMARY: Builtin functions: what they do with their arguments and the sink, and tables of them.
import Scriptlet.Sink
import Scriptlet.Table

/-!
# Builtin functions

A builtin has a name, the numbers of arguments that it accepts, and a routine. A
routine looks at the arguments that it needs and ignores the others; checking
how many there are is left to the caller.
-/
namespace Scriptlet

/-- How a builtin ends without a value. -/
inductive BuiltinError where
  | exit (status : Int32)
  | type (error : TypeError)
  | output (error : WriteError)
  | missingArgument
  deriving Repr, DecidableEq

/-- The end in words. -/
def BuiltinError.message : BuiltinError → String
  | .exit status => s!"exit requested with status {status.toInt}"
  | .type error => error.message
  | .output error => (RuntimeError.output error).message
  | .missingArgument => RuntimeError.missingArgument.message

/-- What a builtin does. -/
inductive Routine where
  /-- Returns three. -/
  | three
  /-- Ends the program with the given status, or with one that says it failed. -/
  | exit
  /-- Writes a value. -/
  | print
  /-- Writes a value and a line feed. -/
  | println
  deriving Repr, DecidableEq

namespace Routine

/-- The status of a program that exits without giving one. -/
def defaultStatus : Int32 := 1

/-- The status that a value stands for: an integer of 32 bits. -/
def statusOf (v : Value) : Except TypeError Int32 :=
  match v.toInt? with
  | none => .error (.statusNotInt v.ty)
  | some n =>
    if Int32.minValue.toInt ≤ n.toInt ∧ n.toInt ≤ Int32.maxValue.toInt then
      .ok (Int32.ofInt n.toInt)
    else .error (.statusOutOfRange n)

/-- Writes a text to the sink. A builtin that does so returns null. -/
def output (text : String) : Action Sink BuiltinError Value := do
  ExceptT.adapt .output (Sink.write text)
  return .null

/-- Carries out the routine. -/
def carryOut : Routine → List Value → Action Sink BuiltinError Value
  | .three, _ => return .int 3
  | .exit, [] => throw (.exit defaultStatus)
  | .exit, v :: _ =>
    match statusOf v with
    | .ok status => throw (.exit status)
    | .error e => throw (.type e)
  | .print, v :: _ => output v.display
  | .println, v :: _ => do
    let _ ← output v.display
    output "\n"
  | .print, [] | .println, [] => throw .missingArgument

end Routine

/-- A builtin function, which accepts from `least` to `greatest` arguments. -/
structure Builtin where
  ident : String
  least : Nat
  greatest : Nat
  routine : Routine
  deriving Repr, DecidableEq

/-- How a message shows the builtin. -/
def Builtin.display (b : Builtin) : String := s!"<native fn {b.ident}>"

/-- Builtins by name. -/
abbrev Builtins := Table Builtin

namespace Builtins

/-- Adds a builtin, in place of one with its name. -/
def add (bs : Builtins) (b : Builtin) : Builtins := bs.insert b.ident b

/-- The builtins that programs find by default. -/
def standard : Builtins :=
  [⟨"three", 0, 0, .three⟩, ⟨"exit", 0, 1, .exit⟩, ⟨"print", 1, 1, .print⟩,
    ⟨"println", 1, 1, .println⟩].foldl add {}

end Builtins

end Scriptlet
