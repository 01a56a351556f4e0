-- SUMMARY: Named texts: lines and columns of positions in them, and reports of errors that point at a position.
import Scriptlet.Text.Offset

/-!
# Sources and reports

A position is shown as a line and a column, both counted from one; columns count
characters. A report shows the message of an error and, if it has a position,
the line that holds it with a caret below.
-/
namespace Scriptlet

/-- A text with the name that reports give it. -/
structure Source where
  name : String := "<input>"
  content : String
  deriving Repr, DecidableEq

-- ---------------------------------------------------------------------------
-- Lines
-- ---------------------------------------------------------------------------

/-- The lines of a text without their ends. A line ends at a line feed, or at a carriage
return and a line feed; no empty line follows the last one that is ended. -/
def Text.lines : List Char → List (List Char)
  | [] => []
  | '\n' :: cs => [] :: lines cs
  | '\r' :: '\n' :: cs => [] :: lines cs
  | c :: cs =>
    match lines cs with
    | [] => [[c]]
    | line :: others => (c :: line) :: others

namespace Source

/-- The line and the column of a byte offset. One past the end, or inside a character, is
taken as the end. -/
def lineCol (s : Source) (offset : Nat) : Nat × Nat :=
  let content := s.content.toList
  let before := (Text.before? offset content).getD content
  (before.count '\n' + 1, (before.reverse.takeWhile (· ≠ '\n')).length + 1)

/-- The text of a line, counted from one. Line zero reads as the first, and a line that is not
there as an empty one. -/
def lineText (s : Source) (line : Nat) : String :=
  String.ofList (((Text.lines s.content.toList)[line - 1]?).getD [])

end Source

-- ---------------------------------------------------------------------------
-- Reports
-- ---------------------------------------------------------------------------

/-- The parts of a report that a terminal sets off. -/
inductive Style where
  /-- Red and bold. -/
  | alert
  /-- Bold. -/
  | strong
  /-- Blue and bold. -/
  | frame

/-- The control sequences that turn a style on. -/
def Style.on : Style → String
  | .alert => "\x1b[31m\x1b[1m"
  | .strong => "\x1b[1m"
  | .frame => "\x1b[34m\x1b[1m"

/-- The text in the style, or as it is if nothing is to be set off. -/
def Style.paint (styled : Bool) (style : Style) (text : String) : String :=
  if styled then style.on ++ text ++ "\x1b[0m" else text

namespace Source

/-- The line of a report that names the error. -/
def heading (styled : Bool) (message : String) : String :=
  Style.alert.paint styled "error" ++ ": " ++ Style.strong.paint styled message ++ "\n"

/-- That many spaces. -/
def blanks (n : Nat) : String := String.ofList (List.replicate n ' ')

/-- The lines of a report that show the position of the error. -/
def excerpt (s : Source) (styled : Bool) (offset : Nat) : String :=
  let (line, col) := s.lineCol offset
  let gutter := blanks (toString line).length
  let number := Style.frame.paint styled (toString line)
  let arrow := Style.frame.paint styled "-->"
  let bar := Style.frame.paint styled "|"
  let caret := Style.alert.paint styled "^"
  s!"{gutter}{arrow} {s.name}:{line}:{col}\n" ++
  s!"{gutter} {bar}\n" ++
  s!"{number} {bar} {s.lineText line}\n" ++
  s!"{gutter} {bar} {blanks (col - 1)}{caret}\n"

/-- The report of an error, with its position if it has one. -/
def report (s : Source) (styled : Bool) (message : String) (offset : Option Nat) : String :=
  heading styled message ++
    match offset with
    | none => ""
    | some offset => s.excerpt styled offset

end Source

end Scriptlet
