-- SUMMARY: Positions in a text: byte lengths of runs of characters and cuts at byte offsets.

/-!
# Byte offsets

A position in a text is the number of bytes before it in the UTF-8 form. Texts
are handled as lists of characters, so a position is turned into a cut of such
a list. Offsets inside a character, or past the end, cut nothing.
-/
namespace Scriptlet.Text

/-- The number of bytes that the characters take in UTF-8. -/
def byteLength : List Char → Nat
  | [] => 0
  | c :: cs => c.utf8Size + byteLength cs

/-- The characters before a byte offset. There are none to give if the offset
lies inside a character or past the end. -/
def before? : Nat → List Char → Option (List Char)
  | 0, _ => some []
  | _ + 1, [] => none
  | offset + 1, c :: cs =>
    if c.utf8Size ≤ offset + 1 then (before? (offset + 1 - c.utf8Size) cs).map (c :: ·) else none

@[simp] theorem byteLength_nil : byteLength [] = 0 := rfl

@[simp] theorem byteLength_cons (c : Char) (cs : List Char) :
    byteLength (c :: cs) = c.utf8Size + byteLength cs := rfl

@[simp] theorem byteLength_append (cs ds : List Char) :
    byteLength (cs ++ ds) = byteLength cs + byteLength ds := by
  induction cs with
  | nil => simp
  | cons c cs ih => simp [ih, Nat.add_assoc]

end Scriptlet.Text
