-- SUMMARY: The longest lexeme at the head of a text, and the faults of a text where no lexeme stands.
import Scriptlet.Token
import Scriptlet.Text.Offset
import Scriptlet.Text.Quoted

/-!
# Lexemes

A lexeme is a stretch of text that is read as one: a token, a blank or a
comment. It is as long as it can be. The first character decides its class, so
its length is found by one look at what follows. Letters, digits and blanks are
those of ASCII; a string may hold any character.
-/
namespace Scriptlet.Token

-- ---------------------------------------------------------------------------
-- Faults
-- ---------------------------------------------------------------------------

/-- Why a text cannot be split into tokens. Each fault has the byte offset where it shows. -/
inductive LexError where
  | unexpectedCharacter (c : Char) (offset : Nat)
  | unterminatedString (offset : Nat)
  | danglingEscape (offset : Nat)
  | secondDecimalPoint (offset : Nat)
  deriving Repr, DecidableEq

namespace LexError

/-- The position that a report of the fault points at. -/
def offset : LexError → Nat
  | .unexpectedCharacter _ offset => offset
  | .unterminatedString offset => offset
  | .danglingEscape offset => offset
  | .secondDecimalPoint offset => offset

/-- The fault in words. -/
def message : LexError → String
  | .unexpectedCharacter c offset =>
    s!"unexpected character {Text.quoted c} at position {offset}"
  | .unterminatedString offset => s!"unterminated string literal starting at position {offset}"
  | .danglingEscape offset => s!"escape character at end of input at position {offset}"
  | .secondDecimalPoint offset =>
    s!"second decimal point in number literal at position {offset}"

end LexError

-- ---------------------------------------------------------------------------
-- Classes of characters
-- ---------------------------------------------------------------------------

/-- Space, tab, line feed, carriage return, vertical tab or form feed. -/
def isBlank (c : Char) : Bool :=
  c = ' ' || c = '\t' || c = '\n' || c = '\r' || c = '\x0B' || c = '\x0C'

/-- May a word begin with the character? -/
def isWordStart (c : Char) : Bool := c.isAlpha || c = '_'

/-- May a word go on with the character? -/
def isWordChar (c : Char) : Bool := isWordStart c || c.isDigit

-- ---------------------------------------------------------------------------
-- Strings
-- ---------------------------------------------------------------------------

/-- The number of characters of a string literal after its opening quote, the closing
quote included. There is none if the string is never closed. -/
def closedAfter? : List Char → Option Nat
  | [] => none
  | ['\\'] => none
  | '\\' :: _ :: cs => (closedAfter? cs).map (· + 2)
  | c :: cs => if c = '"' then some 1 else (closedAfter? cs).map (· + 1)

/-- Does an open string end in a backslash that escapes nothing? -/
def endsInEscape : List Char → Bool
  | [] => false
  | ['\\'] => true
  | '\\' :: _ :: cs => endsInEscape cs
  | _ :: cs => endsInEscape cs

/-- The characters that a string literal stands for: a backslash before `n` is a line
feed, and before any other character it is dropped. -/
def unescape : List Char → List Char
  | [] => []
  | ['\\'] => []
  | '\\' :: c :: cs => (if c = 'n' then '\n' else c) :: unescape cs
  | c :: cs => c :: unescape cs

-- ---------------------------------------------------------------------------
-- Lexemes
-- ---------------------------------------------------------------------------

/-- The lexeme at the head of a text: the kind of token it is, if it is one, and the
number of its characters after the first. -/
structure Lexeme where
  kind? : Option Kind
  more : Nat
  deriving Repr, DecidableEq

/-- The number that begins with the digit `c`. A point after a complete float is a fault
at that point. -/
def Lexeme.number (offset : Nat) (c : Char) (cs : List Char) : Except LexError Lexeme :=
  let whole := cs.takeWhile Char.isDigit
  match cs.drop whole.length with
  | '.' :: rest =>
    let fraction := rest.takeWhile Char.isDigit
    let more := whole.length + 1 + fraction.length
    match rest.drop fraction.length with
    | '.' :: _ => .error (.secondDecimalPoint (offset + Text.byteLength (c :: cs.take more)))
    | _ => .ok ⟨some .float, more⟩
  | _ => .ok ⟨some .integer, whole.length⟩

/-- The string whose opening quote stands before `cs`. -/
def Lexeme.string (offset : Nat) (cs : List Char) : Except LexError Lexeme :=
  match closedAfter? cs with
  | some more => .ok ⟨some .string, more⟩
  | none =>
    if endsInEscape cs then .error (.danglingEscape (offset + Text.byteLength cs))
    else .error (.unterminatedString offset)

/-- The longest lexeme of the text `c :: cs`, which stands at `offset`. -/
def Lexeme.first (offset : Nat) (c : Char) (cs : List Char) : Except LexError Lexeme :=
  if isBlank c then .ok ⟨none, 0⟩
  else if c = '#' then .ok ⟨none, (cs.takeWhile (· ≠ '\n')).length⟩
  else if c.isDigit then Lexeme.number offset c cs
  else if c = '"' then Lexeme.string offset cs
  else if isWordStart c then
    let tail := cs.takeWhile isWordChar
    .ok ⟨some (Kind.ofWord (c :: tail)), tail.length⟩
  else
    match Kind.ofMark? c with
    | some kind => .ok ⟨some kind, 0⟩
    | none => .error (.unexpectedCharacter c offset)

end Scriptlet.Token
