-- SUMMARY: The program: reads the file or the lines that the command line asks for and writes what comes out.
import Scriptlet.Console

namespace Scriptlet.Console

/-- The number of a fault. Some calls of the system give it negated. -/
def faultNumber (code : UInt32) : Nat := code.toInt32.toInt.natAbs

/-- The fault that kept a file from being read. -/
def fileError (e : IO.Error) : FileError :=
  match e with
  | .noFileOrDirectory .. => .notFound
  | .inappropriateType _ code _ => if faultNumber code = 20 then .notDirectory else .isDirectory
  | .invalidArgument _ code _ =>
    if faultNumber code = 36 then .nameTooLong else .unreadable (toString e)
  | e => .unreadable (toString e)

/-- The bytes of a file. -/
def readBytes (path : String) : IO (Except FileError ByteArray) := do
  try
    return .ok (← IO.FS.readBinFile path)
  catch e =>
    return .error (fileError e)

/-- The variables of the environment that the command looks at. -/
def readEnvironment : IO (String → Option String) := do
  let names := [callsVariable, evaluationsVariable, styleVariable]
  let values ← names.mapM fun name => return (name, ← IO.getEnv name)
  return fun name => (values.lookup name).join

/-- Bytes up to the next line feed, or to the end of the input. -/
partial def readLine (stdin : IO.FS.Stream) (line : ByteArray) : IO ByteArray := do
  let bytes ← stdin.read 1
  if bytes.isEmpty then return line
  else if bytes.toList = [10] then return line ++ bytes
  else readLine stdin (line ++ bytes)

/-- Prompts for lines and answers each. -/
partial def promptLoop (styled : Bool) (m : Machine) : IO Int32 := do
  let stdout ← IO.getStdout
  stdout.putStr promptText
  stdout.flush
  let line ← readLine (← IO.getStdin) .empty
  if line.isEmpty then return 0
  let answer := reply styled m line
  stdout.putStr answer.stdout
  stdout.flush
  (← IO.getStderr).putStr answer.stderr
  match answer.next with
  | .error status => return status
  | .ok m => promptLoop styled m

/-- Writes what a command wrote, and returns its status. -/
def writeTranscript (t : Transcript) : IO Int32 := do
  let stdout ← IO.getStdout
  stdout.putStr t.stdout
  stdout.flush
  (← IO.getStderr).putStr t.stderr
  return t.status

/-- Carries out the command, and returns its exit code. -/
def command (args : List String) : IO UInt32 := do
  let env ← readEnvironment
  let status ← match args with
    | [] => promptLoop (styled env) (Machine.standard (limits env) {})
    | [path] => do
      let file ← readBytes path
      writeTranscript (runFile (limits env) (styled env) path file)
    | _ => writeTranscript usage
  return (exitCode status).toUInt32

end Scriptlet.Console

/-- The program. -/
def main (args : List String) : IO UInt32 := Scriptlet.Console.command args
