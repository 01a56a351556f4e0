-- SUMMARY: How terminals are written, and that the scanner reads a written terminal as itself.
import Scriptlet.Proofs.Token.Scan

/-!
# Writing terminals

A terminal is written as the text it keeps; a string is put in quotes, with a
backslash before each quote and each backslash in it. Whatever separates words
ends a lexeme, so a written terminal before a separator is scanned as a whole.
-/
namespace Scriptlet

namespace Token

/-! ## Spellings -/

/-- The words that are no identifiers. -/
def keywords : List String := ["null", "var", "const", "func", "return"]

/-- A letter or underscore, then letters, digits and underscores, and no keyword. -/
structure IsIdentifier (x : String) : Prop where
  word : ∃ c cs, x.toList = c :: cs ∧ isWordStart c ∧ ∀ d ∈ cs, isWordChar d
  notKeyword : x ∉ keywords

/-- A character as it is written in a string. -/
def escape (c : Char) : List Char := if c = '\\' ∨ c = '"' then ['\\', c] else [c]

/-- A string as it is written. -/
def quote (value : List Char) : List Char := '"' :: (value.flatMap escape ++ ['"'])

end Token

/-- The characters of a terminal as it is written. -/
def Terminal.spelling (t : Terminal) : List Char :=
  match t.kind with
  | .integer | .float | .identifier => (t.text.getD "").toList
  | .string => Token.quote (t.text.getD "").toList
  | kind => kind.spelling.toList

/-- The terminal can be written. -/
def Terminal.Spellable (t : Terminal) : Prop :=
  match t.kind with
  | .identifier => ∃ x, t.text = some x ∧ Token.IsIdentifier x
  | .invalid | .endOfInput => False
  | _ => t.Lexed

theorem Terminal.Spellable.lexed {t : Terminal} (h : t.Spellable) : t.Lexed := by
  rcases t with ⟨kind, text⟩
  cases kind <;> simp only [Spellable, Lexed] at h ⊢ <;> first | exact h | skip
  obtain ⟨x, htext, -⟩ := h
  exact ⟨x, htext⟩

namespace Token

/-! ## Separators -/

/-- Nothing, or a blank or a comment first. -/
def Separates (rest : List Char) : Prop := ∀ c ∈ rest.head?, isBlank c ∨ c = '#'

theorem Separates.stops {rest : List Char} (h : Separates rest) (kind : Kind) :
    ∀ c ∈ rest.head?, kind.goesOn c = false := fun c hc => Kind.goesOn_separator (h c hc) kind

/-! ## Written terminals -/

theorem ofWord_of_notKeyword {word : List Char} (h : String.ofList word ∉ keywords) :
    Kind.ofWord word = .identifier := by
  unfold Kind.ofWord
  split <;> simp_all [keywords]

theorem Quotes.cons_escape {body value : List Char} (h : Quotes body value) (c : Char) :
    Quotes (escape c ++ body) (c :: value) := by
  rw [escape]
  split
  · next hc => exact .escaped (by rintro rfl; revert hc; decide) h
  · next hc =>
    rw [not_or] at hc
    exact .plain hc.2 hc.1 h

theorem quotes_escape (value : List Char) : Quotes (value.flatMap escape) value := by
  induction value with
  | nil => exact .nil
  | cons c value ih =>
    rw [List.flatMap_cons]
    exact ih.cons_escape c

theorem IsIdentifier.lexes {x : String} (h : IsIdentifier x) :
    Lexes .identifier (some x) x.toList := by
  obtain ⟨⟨c, cs, hx, hc, hcs⟩, hkeyword⟩ := h
  have hword : IsWord x.toList := by rw [hx]; exact ⟨hc, hcs⟩
  have hends : Ends _ _ x.toList [] := hword.ends nofun
  rw [ofWord_of_notKeyword (by rwa [String.ofList_toList]), Kind.textOf?,
    String.ofList_toList] at hends
  exact hends.toLexes

/-- A written terminal makes one token, which keeps its text. -/
theorem ends_spelling {t : Terminal} {rest : List Char} (ht : t.Spellable)
    (hrest : Separates rest) : Ends t.kind t.text t.spelling rest := by
  refine ⟨?_, hrest.stops t.kind⟩
  rcases t with ⟨kind, text⟩
  cases kind
  case integer =>
    obtain ⟨digits, rfl, hdigits⟩ := ht
    have hlexes := lexes_integer hdigits
    rwa [String.ofList_toList] at hlexes
  case float =>
    obtain ⟨x, rfl, hx⟩ := ht
    have hlexes := lexes_float hx
    rwa [String.ofList_toList] at hlexes
  case string =>
    obtain ⟨value, rfl⟩ := ht
    have hlexes := lexes_string (quotes_escape value.toList)
    rwa [String.ofList_toList] at hlexes
  case identifier =>
    obtain ⟨x, rfl, hx⟩ := ht
    exact hx.lexes
  case invalid => cases ht
  case endOfInput => cases ht
  all_goals
    obtain rfl : text = none := ht
    exact lexes_mark rfl

/-- A written terminal before a separator is scanned as one token. -/
theorem scan_spelling {t : Terminal} {offset : Nat} {rest : List Char} {ts : List Token}
    (ht : t.Spellable) (hrest : Separates rest)
    (h : scan (offset + Text.byteLength t.spelling) rest = .ok ts) :
    scan offset (t.spelling ++ rest) =
      .ok (⟨t.kind, t.text, offset, offset + Text.byteLength t.spelling⟩ :: ts) := by
  rw [scan_token (ends_spelling ht hrest), h]
  rfl

/-- A blank leaves no token. -/
theorem scan_space (offset : Nat) (rest : List Char) :
    scan offset (' ' :: rest) = scan (offset + 1) rest :=
  scan_skip (.blank rfl) offset

end Token

end Scriptlet
