-- SUMMARY: Running a script from its text: faults of either kind, exit statuses and reports.
import Scriptlet.Machine.Run
import Scriptlet.Parse.Program
import Scriptlet.Source

/-!
# Scripts

A script is a text that is read as a program and run on a machine of its own.
-/
namespace Scriptlet

/-- Why a script fails. -/
inductive ScriptError where
  | source (error : SourceError)
  | runtime (error : RuntimeError)
  deriving Repr, DecidableEq

namespace ScriptError

/-- The fault in words. -/
def message : ScriptError → String
  | .source error => error.message
  | .runtime error => error.message

/-- The position that a report points at. A fault of a running program has none. -/
def offset? : ScriptError → Option Nat
  | .source error => some error.offset
  | .runtime _ => none

/-- The exit status of a script that fails. -/
def status : ScriptError → Int32
  | .source _ => 65
  | .runtime _ => 70

/-- The report of the fault against the text it is in. -/
def report (error : ScriptError) (source : Source) (styled : Bool) : String :=
  source.report styled error.message error.offset?

end ScriptError

namespace Machine

/-- Reads a text as a program and runs it. Nothing is run if the text is no program. -/
def runText (m : Machine) (text : String) : Except ScriptError Outcome × Machine :=
  match Program.ofText text with
  | .error e => (.error (.source e), m)
  | .ok p =>
    let (result, m) := m.run p
    (result.mapError .runtime, m)

/-- A machine with the standard builtins. -/
def standard (limits : Limits) (sink : Sink) : Machine where
  builtins := Builtins.standard
  limits := limits
  sink := sink

end Machine

/-- The exit status of a script. -/
def Script.status : Except ScriptError Outcome → Int32
  | .ok outcome => outcome.status
  | .error e => e.status

end Scriptlet
