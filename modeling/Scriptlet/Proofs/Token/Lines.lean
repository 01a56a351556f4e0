-- SUMMARY: The tokens of a text that goes on in a new line, and the tokens of a text that stands further on.
import Scriptlet.Proofs.Token.Scan

/-!
# Texts in lines

A line feed may stand behind every token, and it ends a comment. So what was read up
to the end of a line does not depend on what stands in the lines behind it. What
stands there is read as it would be on its own, only that all places are counted from
the beginning of the whole text.
-/
namespace Scriptlet.Token

/-! ## Texts that stand further on -/

/-- The token, if `n` more bytes stood before it. -/
def shift (n : Nat) (t : Token) : Token := { t with start := t.start + n, stop := t.stop + n }

/-- The fault, if `n` more bytes stood before the text. -/
def LexError.shift (n : Nat) : LexError → LexError
  | .unexpectedCharacter c offset => .unexpectedCharacter c (offset + n)
  | .unterminatedString offset => .unterminatedString (offset + n)
  | .danglingEscape offset => .danglingEscape (offset + n)
  | .secondDecimalPoint offset => .secondDecimalPoint (offset + n)

theorem number_shift (n offset : Nat) (c : Char) (cs : List Char) :
    Lexeme.number (offset + n) c cs = (Lexeme.number offset c cs).mapError (LexError.shift n) := by
  simp only [Lexeme.number]
  split
  · split
    · rw [Nat.add_right_comm]
      rfl
    · rfl
  · rfl

theorem string_shift (n offset : Nat) (cs : List Char) :
    Lexeme.string (offset + n) cs = (Lexeme.string offset cs).mapError (LexError.shift n) := by
  simp only [Lexeme.string]
  split
  · rfl
  · split
    · rw [Nat.add_right_comm]
      rfl
    · rfl

theorem first_shift (n offset : Nat) (c : Char) (cs : List Char) :
    Lexeme.first (offset + n) c cs = (Lexeme.first offset c cs).mapError (LexError.shift n) := by
  simp only [Lexeme.first, number_shift, string_shift]
  split
  · rfl
  split
  · rfl
  split
  · rfl
  split
  · rfl
  split
  · rfl
  split <;> rfl

theorem scan_shift (n offset : Nat) (cs : List Char) :
    scan (offset + n) cs =
      ((scan offset cs).map (List.map (shift n))).mapError (LexError.shift n) := by
  fun_induction scan offset cs with
  | case1 offset =>
    rw [scan_nil]
    rfl
  | case2 offset c cs ih =>
    rw [scan, first_shift]
    cases Lexeme.first offset c cs with
    | error e => rfl
    | ok found =>
      have ih := ih found
      simp only [Nat.add_right_comm _ n, Except.mapError, bind, Except.bind]
      rw [ih]
      cases scan (offset + Text.byteLength (c :: cs.take found.more)) (cs.drop found.more) with
      | error e => rfl
      | ok ts => cases found.kind? <;> rfl

/-! ## Texts in lines -/

variable {offset : Nat} {part rest lexeme cs : List Char} {ts : List Token}

theorem head?_append_line (rest more : List Char) :
    ∀ c ∈ (rest ++ '\n' :: more).head?, c ∈ rest.head? ∨ c = '\n' := by
  cases rest with
  | nil => exact fun c hc => .inr (Option.some.inj hc).symm
  | cons d rest => exact fun c hc => .inl hc

theorem Skips.append_line (h : Skips rest part) (more : List Char) :
    Skips (rest ++ '\n' :: more) part := by
  cases h with
  | blank hc => exact .blank hc
  | comment hbody hline =>
    exact .comment hbody fun c hc => (head?_append_line rest more c hc).elim (hline c) id

theorem Ends.append_line {kind : Kind} {text : Option String} (h : Ends kind text lexeme rest)
    (more : List Char) : Ends kind text lexeme (rest ++ '\n' :: more) where
  toLexes := h.toLexes
  stops c hc := by
    obtain hc | rfl := head?_append_line rest more c hc
    · exact h.stops c hc
    · exact Kind.goesOn_separator (.inl rfl) kind

theorem Splits.append_line (h : Splits offset cs ts) (more : List Char) :
    SplitsBefore ('\n' :: more) offset cs ts := by
  induction h with
  | nil => exact .nil
  | skip hpart _ ih => exact .skip (hpart.append_line more) ih
  | token hlexeme _ ih => exact .token (hlexeme.append_line more) ih

/-- The tokens of a text stay if a new line follows, and then come those of the text behind it. -/
theorem scan_append_line (h : Splits offset cs ts) (more : List Char) :
    scan offset (cs ++ '\n' :: more) =
      (scan (offset + Text.byteLength cs + 1) more).map (ts ++ ·) := by
  have hblank : Skips more ['\n'] := .blank rfl
  rw [(h.append_line more).scan]
  exact congrArg _ (scan_skip hblank _)

/-! ## Texts that end a line -/

/-- No token ends with a line feed. -/
theorem Matches.getLast?_ne {kind : Kind} {text : Option String} (h : Matches kind lexeme text) :
    lexeme.getLast? ≠ some '\n' := by
  have hnone {p : Char → Bool} {cs : List Char} (hcs : ∀ d ∈ cs, p d) (hp : p '\n' = false) :
      cs.getLast? ≠ some '\n' := by
    intro hlast
    have hfeed := hcs '\n' (List.mem_of_getLast? hlast)
    rw [hp] at hfeed
    cases hfeed
  cases h with
  | integer h => exact hnone h.digits rfl
  | float h =>
    obtain ⟨whole, fraction, hwhole, hfraction, rfl⟩ := h
    have hpoint : ∀ d ∈ whole ++ '.' :: fraction, (d.isDigit || d = '.') := by
      intro d hd
      rw [List.mem_append, List.mem_cons] at hd
      obtain hd | rfl | hd := hd
      · rw [hwhole.digits d hd, Bool.true_or]
      · rfl
      · rw [hfraction d hd, Bool.true_or]
    exact hnone hpoint rfl
  | @string body =>
    rw [← List.cons_append, List.getLast?_concat]
    decide
  | identifier h =>
    cases lexeme with
    | nil => cases h
    | cons c cs =>
      have hword : ∀ d ∈ c :: cs, isWordChar d :=
        List.forall_mem_cons.mpr ⟨by rw [isWordChar, h.1, Bool.true_or], h.2⟩
      exact hnone hword rfl
  | mark h => cases kind <;> first | (cases h; done) | simp [Kind.spelling]

/-- The last character of what ends a line. -/
theorem getLast?_of_append {before : List Char} (h : ∀ c ∈ (before ++ rest).getLast?, c = '\n') :
    ∀ c ∈ rest.getLast?, c = '\n' := by
  intro c hc
  refine h c ?_
  rw [List.getLast?_append, hc]
  rfl

theorem head?_append_of_ne_nil (h : rest ≠ []) (more : List Char) : (rest ++ more).head? = rest.head? := by
  cases rest with
  | nil => exact absurd rfl h
  | cons c rest => rfl

theorem Skips.append_of_end (h : Skips rest part) (hend : ∀ c ∈ (part ++ rest).getLast?, c = '\n')
    (more : List Char) : Skips (rest ++ more) part := by
  cases h with
  | blank hc => exact .blank hc
  | @comment body hbody hline =>
    refine .comment hbody ?_
    by_cases hrest : rest = []
    · rw [hrest, List.append_nil] at hend
      have hmem := List.getLast_mem (List.cons_ne_nil '#' body)
      rw [hend _ (List.getLast?_eq_getLast_of_ne_nil _)] at hmem
      obtain heq | hmem := List.mem_cons.mp hmem
      · cases heq
      · exact absurd rfl (hbody '\n' hmem)
    · rw [head?_append_of_ne_nil hrest]
      exact hline

theorem Ends.append_of_end {kind : Kind} {text : Option String} (h : Ends kind text lexeme rest)
    (hend : ∀ c ∈ (lexeme ++ rest).getLast?, c = '\n') (more : List Char) :
    Ends kind text lexeme (rest ++ more) where
  toLexes := h.toLexes
  stops := by
    by_cases hrest : rest = []
    · rw [hrest, List.append_nil] at hend
      cases hlast : lexeme.getLast? with
      | none => exact absurd (List.getLast?_eq_none_iff.mp hlast) h.isMatch.ne_nil
      | some c =>
        obtain rfl := hend c hlast
        exact absurd hlast h.isMatch.getLast?_ne
    · rw [head?_append_of_ne_nil hrest]
      exact h.stops

theorem Splits.append_of_end (h : Splits offset cs ts) (hend : ∀ c ∈ cs.getLast?, c = '\n')
    (more : List Char) : SplitsBefore more offset cs ts := by
  induction h with
  | nil => exact .nil
  | skip hpart _ ih => exact .skip (hpart.append_of_end hend more) (ih (getLast?_of_append hend))
  | token hlexeme _ ih => exact .token (hlexeme.append_of_end hend more) (ih (getLast?_of_append hend))

/-- The tokens of a text that ends a line stay, and then come those of the text behind it. -/
theorem scan_append_of_end (h : Splits offset cs ts) (hend : ∀ c ∈ cs.getLast?, c = '\n')
    (more : List Char) :
    scan offset (cs ++ more) = (scan (offset + Text.byteLength cs) more).map (ts ++ ·) :=
  (h.append_of_end hend more).scan

end Scriptlet.Token
