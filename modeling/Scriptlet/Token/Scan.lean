-- SUMMARY: Splitting a text into its tokens.
import Scriptlet.Token.Lexeme

/-!
# Texts as tokens

A text is cut into lexemes from its beginning. Blanks and comments leave no
token; every other lexeme leaves one, with the bytes where it stands. The first
fault ends the reading.
-/
namespace Scriptlet.Token

/-- The text that a token of this kind keeps of its lexeme. -/
def Kind.textOf? (kind : Kind) (lexeme : List Char) : Option String :=
  match kind with
  | .integer | .float | .identifier => some (String.ofList lexeme)
  | .string => some (String.ofList (unescape lexeme.tail.dropLast))
  | _ => none

/-- The tokens of the characters that stand at `offset`, and the end of input after them. -/
def scan (offset : Nat) : List Char → Except LexError (List Token)
  | [] => .ok [atEnd offset]
  | c :: cs => do
    let found ← Lexeme.first offset c cs
    let lexeme := c :: cs.take found.more
    let stop := offset + Text.byteLength lexeme
    let rest ← scan stop (cs.drop found.more)
    match found.kind? with
    | some kind => return ⟨kind, kind.textOf? lexeme, offset, stop⟩ :: rest
    | none => return rest
termination_by cs => cs.length
decreasing_by simp only [List.length_drop, List.length_cons]; omega

/-- The tokens of a text. The last one is its only end of input. -/
def ofText (text : String) : Except LexError (List Token) := scan 0 text.toList

end Scriptlet.Token
