-- SUMMARY: A character in single quotes, with escapes for what could not be read otherwise.
import Scriptlet.Text.Printable

/-!
# Quoted characters

How a message names a character: between single quotes. A few characters have a
short escape; one that cannot be printed, or that would attach to the quote
before it, is given by its code point in hexadecimal.
-/
namespace Scriptlet.Text

/-- The escape by code point: lowercase hexadecimal, without leading zeros. -/
def codePointEscape (c : Char) : String :=
  "\\u\x7b" ++ String.ofList (Nat.toDigits 16 c.toNat) ++ "\x7d"

/-- The form of a character between quotes. A double quote needs no escape there. -/
def escaped (c : Char) : String :=
  match c with
  | '\x00' => "\\0"
  | '\t' => "\\t"
  | '\r' => "\\r"
  | '\n' => "\\n"
  | '\'' => "\\'"
  | '\\' => "\\\\"
  | c => if isPrintable c && !attaches c then c.toString else codePointEscape c

/-- The character in single quotes. -/
def quoted (c : Char) : String := "'" ++ escaped c ++ "'"

end Scriptlet.Text
