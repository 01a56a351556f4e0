-- SUMMARY: Tokens: their kinds, how messages name a kind, and the words and marks with a kind of their own.

/-!
# Tokens

A token has a kind, the range of bytes where it was written and, if its kind has
many spellings, a text: the name of an identifier, a number as written, the
value of a string.
-/
namespace Scriptlet

/-- The kinds of tokens. `invalid` marks what is no token, and `endOfInput` stands
after the last one. -/
inductive Token.Kind where
  | integer
  | float
  | string
  | null
  | identifier
  | equals
  | plus
  | minus
  | star
  | slash
  | openParen
  | closeParen
  | openBrace
  | closeBrace
  | comma
  | semicolon
  | varWord
  | constWord
  | funcWord
  | returnWord
  | invalid
  | endOfInput
  deriving Repr, DecidableEq

/-- A token, written in the bytes from `start` up to `stop`. -/
structure Token where
  kind : Token.Kind
  text : Option String
  start : Nat
  stop : Nat
  deriving Repr, DecidableEq

namespace Token

/-- The token that ends every list of tokens, for a text of `length` bytes. -/
def atEnd (length : Nat) : Token := ⟨.endOfInput, none, length, length⟩

namespace Kind

/-- How a message names the kind. -/
def display : Kind → String
  | .integer => "integer literal"
  | .float => "float literal"
  | .string => "string literal"
  | .null => "`null`"
  | .identifier => "identifier"
  | .equals => "`=`"
  | .plus => "`+`"
  | .minus => "`-`"
  | .star => "`*`"
  | .slash => "`/`"
  | .openParen => "`(`"
  | .closeParen => "`)`"
  | .openBrace => "`\x7b`"
  | .closeBrace => "`\x7d`"
  | .comma => "`,`"
  | .semicolon => "`;`"
  | .varWord => "`var`"
  | .constWord => "`const`"
  | .funcWord => "`func`"
  | .returnWord => "`return`"
  | .invalid => "invalid token"
  | .endOfInput => "end of input"

/-- The kind of a word: a keyword if it is exactly that keyword. -/
def ofWord (word : List Char) : Kind :=
  match String.ofList word with
  | "null" => .null
  | "var" => .varWord
  | "const" => .constWord
  | "func" => .funcWord
  | "return" => .returnWord
  | _ => .identifier

/-- The kind of a token that is a single mark. -/
def ofMark? : Char → Option Kind
  | '=' => some .equals
  | '+' => some .plus
  | '-' => some .minus
  | '*' => some .star
  | '/' => some .slash
  | '(' => some .openParen
  | ')' => some .closeParen
  | '{' => some .openBrace
  | '}' => some .closeBrace
  | ',' => some .comma
  | ';' => some .semicolon
  | _ => none

end Kind

end Token

end Scriptlet
