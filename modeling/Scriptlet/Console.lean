-- SUMMARY: The command line: running a script file or answering lines at a prompt, as pure functions of what is read.
import Scriptlet.Directory
import Scriptlet.Script

/-!
# The command line

Without an argument the command prompts for lines and runs each as a program on
one machine; with one argument it runs that file. Everything it writes is a
function of its arguments, its environment, the file and the lines that it
reads, so the outermost layer only reads and writes.
-/
namespace Scriptlet.Console

-- ---------------------------------------------------------------------------
-- Environment
-- ---------------------------------------------------------------------------

/-- A limit that a variable of the environment sets. Text that is no count sets none. -/
def limitOf (default : Nat) (setting : Option String) : Nat :=
  (setting.bind fun text => Decimal.readCount? text.toList).getD default

/-- The variable that sets the greatest number of active calls. -/
def callsVariable : String := "NOX_MAX_CALL_DEPTH"

/-- The variable that sets the greatest number of active evaluations and calls. -/
def evaluationsVariable : String := "NOX_MAX_EVAL_DEPTH"

/-- The variable that forces styled reports. -/
def styleVariable : String := "CLICOLOR_FORCE"

/-- The limits that the environment sets. -/
def limits (env : String → Option String) : Limits where
  calls := limitOf ({} : Limits).calls (env callsVariable)
  evaluations := limitOf ({} : Limits).evaluations (env evaluationsVariable)

/-- Does the environment force styled reports? A zero does not. -/
def styled (env : String → Option String) : Bool := (env styleVariable).getD "0" != "0"

-- ---------------------------------------------------------------------------
-- Running a file
-- ---------------------------------------------------------------------------

/-- What a command leaves: its exit status and all that it wrote. -/
structure Transcript where
  status : Int32
  stdout : String := ""
  stderr : String := ""
  deriving Repr, DecidableEq

/-- The exit code that the system makes of a status: its lowest eight bits. -/
def exitCode (status : Int32) : Nat := (status.toInt % 256).toNat

/-- The exit status of a command with too many arguments. -/
def usageStatus : Int32 := 64

/-- The exit status of a command whose file cannot be read. -/
def noInputStatus : Int32 := 66

/-- The exit status of a command that cannot read a line. -/
def inputErrorStatus : Int32 := 74

/-- Refuses arguments that are too many. -/
def usage : Transcript := { status := usageStatus, stderr := "Usage: nox [script]\n" }

/-- The text of bytes that were read. -/
def decode (bytes : ByteArray) : Except FileError String :=
  match String.fromUTF8? bytes with
  | some text => .ok text
  | none => .error .notText

/-- Runs a file, given the bytes at its path. -/
def runFile (limits : Limits) (styled : Bool) (path : String)
    (file : Except FileError ByteArray) : Transcript :=
  match file.bind decode with
  | .error e =>
    { status := noInputStatus, stderr := s!"cannot read {path}: {e.message}\n" }
  | .ok content =>
    let (result, m) := (Machine.standard limits {}).runText content
    { status := Script.status result
      stdout := m.sink.text
      stderr := match result with
        | .ok _ => ""
        | .error e => e.report ⟨path, content⟩ styled }

-- ---------------------------------------------------------------------------
-- The prompt
-- ---------------------------------------------------------------------------

/-- What is written before each line is read. -/
def promptText : String := "> "

/-- The answer to a line: what it writes, and the machine for the next line or the status that
ends the command. -/
structure Reply where
  stdout : String := ""
  stderr : String := ""
  next : Except Int32 Machine

/-- Answers a line, which holds its end. An error is reported, and the prompt goes on. -/
def reply (styled : Bool) (m : Machine) (line : ByteArray) : Reply :=
  match decode line with
  | .error e => { stderr := s!"cannot read input: {e.message}\n", next := .error inputErrorStatus }
  | .ok text =>
    let (result, m) := { m with sink := m.sink.emptied }.runText text
    { stdout := m.sink.text
      stderr := match result with
        | .ok _ => ""
        | .error e => e.report ⟨"<repl>", text⟩ styled
      next := match result with
        | .ok (.exited status) => .error status
        | _ => .ok m }

/-- Answers lines until one ends the command or none is left. -/
def prompt (styled : Bool) (m : Machine) : List ByteArray → Transcript
  | [] => { status := 0, stdout := promptText }
  | line :: lines =>
    let first := reply styled m line
    let rest : Transcript := match first.next with
      | .error status => { status }
      | .ok m => prompt styled m lines
    { status := rest.status
      stdout := promptText ++ first.stdout ++ rest.stdout
      stderr := first.stderr ++ rest.stderr }

/-- The lines of bytes with their ends. The last one may have none. -/
def byteLines : List UInt8 → List (List UInt8)
  | [] => []
  | b :: bs =>
    if b = 10 then [b] :: byteLines bs
    else
      match byteLines bs with
      | [] => [[b]]
      | line :: others => (b :: line) :: others

-- ---------------------------------------------------------------------------
-- The command
-- ---------------------------------------------------------------------------

/-- Runs the command in a directory. -/
def run (args : List String) (env : String → Option String) (directory : Directory)
    (stdin : ByteArray) : Transcript :=
  match args with
  | [] =>
    prompt (styled env) (Machine.standard (limits env) {})
      ((byteLines stdin.toList).map fun line => ⟨line.toArray⟩)
  | [path] => runFile (limits env) (styled env) path (directory.read path)
  | _ => usage

end Scriptlet.Console
