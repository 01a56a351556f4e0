-- SUMMARY: The faults of a list of tokens that is no program, and of a text, with their positions and wording.
import Scriptlet.Token.Scan

/-!
# Syntax errors

Each fault has the byte offset of the token where it shows.
-/
namespace Scriptlet

/-- The greatest height of an expression, and the greatest nesting of primary expressions. -/
def maxNesting : Nat := 256

/-- What could have stood where something else was found. -/
inductive Expected where
  | kind (kind : Token.Kind)
  | expression
  | statement
  | declaration
  | commaOrCloseParen
  deriving Repr, DecidableEq

/-- How a message names what was expected. -/
def Expected.display : Expected → String
  | .kind k => k.display
  | .expression => "expression"
  | .statement => "statement"
  | .declaration => "declaration"
  | .commaOrCloseParen => "`,` or `)`"

/-- Why tokens are no program. -/
inductive ParseError where
  | unexpectedToken (expected : Expected) (found : Token.Kind) (offset : Nat)
  | unexpectedEnd (expected : Expected) (offset : Nat)
  | duplicateParam (function param : String) (offset : Nat)
  | requiredAfterOptional (function param : String) (offset : Nat)
  | numberOutOfRange (text : String) (offset : Nat)
  | nestingTooDeep (offset : Nat)
  deriving Repr, DecidableEq

namespace ParseError

/-- The position that a report of the fault points at. -/
def offset : ParseError → Nat
  | .unexpectedToken _ _ offset => offset
  | .unexpectedEnd _ offset => offset
  | .duplicateParam _ _ offset => offset
  | .requiredAfterOptional _ _ offset => offset
  | .numberOutOfRange _ offset => offset
  | .nestingTooDeep offset => offset

/-- The fault in words. -/
def message : ParseError → String
  | .unexpectedToken expected found offset =>
    s!"expected {expected.display}, found {found.display} at position {offset}"
  | .unexpectedEnd expected _ => s!"expected {expected.display}, found end of input"
  | .duplicateParam function param _ =>
    s!"parameter `{param}` of function `{function}` is declared more than once"
  | .requiredAfterOptional function param _ =>
    s!"required parameter `{param}` of function `{function}` " ++
      "follows a parameter with a default value"
  | .numberOutOfRange text _ => s!"number literal `{text}` is out of range"
  | .nestingTooDeep _ => s!"expression nested more than {maxNesting} levels deep"

end ParseError

/-- Why a text is no program. -/
inductive SourceError where
  | lex (error : Token.LexError)
  | parse (error : ParseError)
  deriving Repr, DecidableEq

namespace SourceError

/-- The position that a report of the fault points at. -/
def offset : SourceError → Nat
  | .lex error => error.offset
  | .parse error => error.offset

/-- The fault in words. -/
def message : SourceError → String
  | .lex error => error.message
  | .parse error => error.message

end SourceError

end Scriptlet
