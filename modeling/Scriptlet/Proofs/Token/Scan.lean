-- SUMMARY: How the scanner splits a text into blanks, comments and tokens, and the shape of the tokens.
import Scriptlet.Proofs.Grammar
import Scriptlet.Proofs.Token.Pattern

/-!
# The tokens of a text

Scanning a text that is not empty is scanning its first lexeme and then the rest. So
a scan that ends well has split the text into blanks, comments and tokens, and by
induction on the split it is known what the tokens look like: marks and keywords have
no text, numerals have digits, and only the last token is the end of input.
-/
namespace Scriptlet

/-! ## One lexeme and the rest -/

namespace Token

variable {kind : Kind} {text : Option String} {cs part lexeme rest : List Char} {offset : Nat}
  {ts us : List Token}

theorem scan_nil (offset : Nat) : scan offset [] = .ok [atEnd offset] := by
  rw [scan]

/-- Blanks and comments leave no token. -/
theorem scan_skip (h : Skips rest part) (offset : Nat) :
    scan offset (part ++ rest) = scan (offset + Text.byteLength part) rest := by
  obtain ⟨c, cs, rfl⟩ : ∃ c cs, part = c :: cs := by cases h <;> exact ⟨_, _, rfl⟩
  rw [List.cons_append, scan, h.first offset]
  simp only [bind, Except.bind, List.take_left, List.drop_left]
  cases scan (offset + Text.byteLength (c :: cs)) rest <;> rfl

/-- A token is scanned as itself, and then the rest. -/
theorem scan_token (h : Ends kind text lexeme rest) (offset : Nat) :
    scan offset (lexeme ++ rest) =
      (scan (offset + Text.byteLength lexeme) rest).map
        (⟨kind, text, offset, offset + Text.byteLength lexeme⟩ :: ·) := by
  obtain ⟨c, cs, rfl, hfirst, rfl⟩ := h.first offset
  rw [List.cons_append, scan, hfirst]
  simp only [bind, Except.bind, List.take_left, List.drop_left]
  cases scan (offset + Text.byteLength (c :: cs)) rest <;> rfl

theorem exists_first_of_scan {c : Char} (h : scan offset (c :: cs) = .ok us) :
    ∃ found, Lexeme.first offset c cs = .ok found := by
  rw [scan] at h
  cases hfirst : Lexeme.first offset c cs with
  | error e => rw [hfirst] at h; cases h
  | ok found => exact ⟨found, rfl⟩

/-- The characters at `offset` are split into these tokens, blanks and comments. -/
inductive Splits : Nat → List Char → List Token → Prop
  | nil {offset : Nat} : Splits offset [] []
  | skip {offset : Nat} {part rest : List Char} {ts : List Token} (hpart : Skips rest part) :
      Splits (offset + Text.byteLength part) rest ts → Splits offset (part ++ rest) ts
  | token {offset : Nat} {kind : Kind} {text : Option String} {lexeme rest : List Char}
      {ts : List Token} (hlexeme : Ends kind text lexeme rest) :
      Splits (offset + Text.byteLength lexeme) rest ts →
        Splits offset (lexeme ++ rest) (⟨kind, text, offset, offset + Text.byteLength lexeme⟩ :: ts)

theorem Splits.scan (h : Splits offset cs ts) :
    scan offset cs = .ok (ts ++ [atEnd (offset + Text.byteLength cs)]) := by
  induction h with
  | nil => exact scan_nil _
  | skip hpart _ ih => rw [scan_skip hpart, ih, Text.byteLength_append, Nat.add_assoc]
  | token hlexeme _ ih =>
    rw [scan_token hlexeme, ih, Text.byteLength_append, Nat.add_assoc]
    rfl

theorem splits_of_scan (h : scan offset cs = .ok us) : ∃ ts, Splits offset cs ts := by
  induction hn : cs.length using Nat.strongRecOn generalizing offset cs us with
  | _ n ih =>
    cases cs with
    | nil => exact ⟨[], .nil⟩
    | cons c cs =>
      obtain ⟨found, hfirst⟩ := exists_first_of_scan h
      obtain ⟨part, rest, rfl, hpart⟩ | ⟨kind, text, tail, rest, rfl, hlexeme⟩ := first_cases hfirst
      · rw [← List.cons_append, scan_skip hpart] at h
        obtain ⟨ts, hts⟩ := ih rest.length (by simp at hn; omega) h rfl
        exact ⟨ts, .skip hpart hts⟩
      · rw [← List.cons_append, scan_token hlexeme] at h
        cases hrest : scan (offset + Text.byteLength (c :: tail)) rest with
        | error e => rw [hrest] at h; cases h
        | ok us =>
          obtain ⟨ts, hts⟩ := ih rest.length (by simp at hn; omega) hrest rfl
          exact ⟨_ :: ts, .token hlexeme hts⟩

/-- A scan gives the tokens that the text is split into, and the end of input after them. -/
theorem scan_eq_ok_iff_splits :
    scan offset cs = .ok us ↔
      ∃ ts, us = ts ++ [atEnd (offset + Text.byteLength cs)] ∧ Splits offset cs ts := by
  constructor
  · intro h
    obtain ⟨ts, hts⟩ := splits_of_scan h
    rw [hts.scan, Except.ok.injEq] at h
    exact ⟨ts, h.symm, hts⟩
  · rintro ⟨ts, rfl, hts⟩
    exact hts.scan

/-! ### Up to some place -/

/-- What may stand behind a lexeme is decided by its first character. -/
theorem Skips.of_head {rest' : List Char} (h : Skips rest part)
    (hhead : ∀ c ∈ rest'.head?, c ∈ rest.head?) : Skips rest' part := by
  cases h with
  | blank hc => exact .blank hc
  | comment hbody hline => exact .comment hbody fun c hc => hline c (hhead c hc)

theorem Ends.of_head {rest' : List Char} (h : Ends kind text lexeme rest)
    (hhead : ∀ c ∈ rest'.head?, c ∈ rest.head?) : Ends kind text lexeme rest' where
  toLexes := h.toLexes
  stops c hc := h.stops c (hhead c hc)

/-- The characters that stand at `offset`, before `rest`, are split into these tokens, blanks and
comments. -/
inductive SplitsBefore (rest : List Char) : Nat → List Char → List Token → Prop
  | nil {offset : Nat} : SplitsBefore rest offset [] []
  | skip {offset : Nat} {part cs : List Char} {ts : List Token} (hpart : Skips (cs ++ rest) part) :
      SplitsBefore rest (offset + Text.byteLength part) cs ts → SplitsBefore rest offset (part ++ cs) ts
  | token {offset : Nat} {kind : Kind} {text : Option String} {lexeme cs : List Char}
      {ts : List Token} (hlexeme : Ends kind text lexeme (cs ++ rest)) :
      SplitsBefore rest (offset + Text.byteLength lexeme) cs ts →
        SplitsBefore rest offset (lexeme ++ cs)
          (⟨kind, text, offset, offset + Text.byteLength lexeme⟩ :: ts)

theorem SplitsBefore.of_head {rest' : List Char} (h : SplitsBefore rest offset cs ts)
    (hhead : ∀ c ∈ rest'.head?, c ∈ rest.head?) : SplitsBefore rest' offset cs ts := by
  have happend (cs : List Char) : ∀ c ∈ (cs ++ rest').head?, c ∈ (cs ++ rest).head? := by
    cases cs with
    | nil => exact hhead
    | cons d cs => exact fun c hc => hc
  induction h with
  | nil => exact .nil
  | skip hpart _ ih => exact .skip (hpart.of_head (happend _)) ih
  | token hlexeme _ ih => exact .token (hlexeme.of_head (happend _)) ih

/-- What is split before something is split on its own. -/
theorem SplitsBefore.splits (h : SplitsBefore rest offset cs ts) : Splits offset cs ts := by
  have hnone : SplitsBefore [] offset cs ts := h.of_head nofun
  clear h
  induction hnone with
  | nil => exact .nil
  | skip hpart _ ih => exact .skip (by rwa [List.append_nil] at hpart) ih
  | token hlexeme _ ih => exact .token (by rwa [List.append_nil] at hlexeme) ih

theorem SplitsBefore.scan (h : SplitsBefore rest offset cs ts) :
    scan offset (cs ++ rest) =
      (scan (offset + Text.byteLength cs) rest).map (ts ++ ·) := by
  induction h with
  | @nil offset =>
    change Token.scan offset rest = (Token.scan offset rest).map _
    cases Token.scan offset rest <;> rfl
  | skip hpart _ ih =>
    rw [List.append_assoc, scan_skip hpart, ih, Text.byteLength_append, Nat.add_assoc]
  | @token offset kind text lexeme cs ts hlexeme _ ih =>
    rw [List.append_assoc, scan_token hlexeme, ih, Text.byteLength_append, Nat.add_assoc]
    cases Token.scan (offset + (Text.byteLength lexeme + Text.byteLength cs)) rest <;> rfl

/-- A scan that fails has split the text up to a place where no lexeme stands. -/
theorem exists_of_scan_eq_error {e : LexError} (h : scan offset cs = .error e) :
    ∃ before c tail ts, cs = before ++ c :: tail ∧ SplitsBefore (c :: tail) offset before ts ∧
      Lexeme.first (offset + Text.byteLength before) c tail = .error e := by
  induction hn : cs.length using Nat.strongRecOn generalizing offset cs with
  | _ n ih =>
    cases cs with
    | nil =>
      rw [scan_nil] at h
      cases h
    | cons c cs =>
      cases hfirst : Lexeme.first offset c cs with
      | error e' =>
        rw [scan, hfirst] at h
        cases h
        exact ⟨[], c, cs, [], rfl, .nil, hfirst⟩
      | ok found =>
        obtain ⟨part, rest, rfl, hpart⟩ | ⟨kind, text, tail, rest, rfl, hlexeme⟩ :=
          first_cases hfirst
        · rw [← List.cons_append, scan_skip hpart] at h
          obtain ⟨before, d, tail, ts, rfl, hsplits, hfault⟩ :=
            ih rest.length (by simp at hn; omega) h rfl
          refine ⟨c :: part ++ before, d, tail, ts, by simp, .skip hpart hsplits, ?_⟩
          rwa [Text.byteLength_append, ← Nat.add_assoc]
        · rw [← List.cons_append, scan_token hlexeme] at h
          cases hrest : scan (offset + Text.byteLength (c :: tail)) rest with
          | ok us =>
            rw [hrest] at h
            cases h
          | error e' =>
            rw [hrest] at h
            cases h
            obtain ⟨before, d, tail', ts, rfl, hsplits, hfault⟩ :=
              ih rest.length (by simp at hn; omega) hrest rfl
            refine ⟨c :: tail ++ before, d, tail', _ :: ts, by simp, .token hlexeme hsplits, ?_⟩
            rwa [Text.byteLength_append, ← Nat.add_assoc]

end Token

/-! ## The shape of tokens -/

/-- The text that a terminal has if it was read from a text. -/
def Terminal.Lexed (t : Terminal) : Prop :=
  match t.kind with
  | .integer => ∃ digits, t.text = some digits ∧ Decimal.IsWhole digits.toList
  | .float => ∃ s, t.text = some s ∧ Decimal.IsPointed s.toList
  | .string | .identifier => ∃ s, t.text = some s
  | _ => t.text = none

theorem Terminal.Lexed.eq_mark {t : Terminal} (h : t.Lexed) (hm : t.kind.isMark) :
    t = .mark t.kind := by
  rcases t with ⟨kind, text⟩
  cases kind <;> simp_all [Terminal.Lexed, Token.Kind.isMark]

namespace Token

theorem Matches.lexed {kind : Kind} {cs : List Char} {text : Option String}
    (h : Matches kind cs text) : Terminal.Lexed ⟨kind, text⟩ := by
  cases h with
  | integer h => exact ⟨_, rfl, by rwa [String.toList_ofList]⟩
  | float h => exact ⟨_, rfl, by rwa [String.toList_ofList]⟩
  | string | identifier => exact ⟨_, rfl⟩
  | mark h => cases kind <;> cases h <;> rfl

theorem Splits.lexed {offset : Nat} {cs : List Char} {ts : List Token} (h : Splits offset cs ts) :
    ∀ t ∈ ts, t.kind ≠ .endOfInput ∧ t.terminal.Lexed := by
  induction h with
  | nil => nofun
  | skip _ _ ih => exact ih
  | token hlexeme _ ih =>
    exact List.forall_mem_cons.mpr ⟨⟨hlexeme.isMatch.ne_endOfInput, hlexeme.isMatch.lexed⟩, ih⟩

/-- The last token of a text is its only end of input, and every token has the text that its
kind calls for. -/
theorem scan_shape {offset : Nat} {cs : List Char} {ts : List Token}
    (h : scan offset cs = .ok ts) :
    ∃ init stop, ts = init ++ [atEnd stop] ∧
      ∀ t ∈ init, t.kind ≠ .endOfInput ∧ t.terminal.Lexed := by
  obtain ⟨init, rfl, hsplits⟩ := scan_eq_ok_iff_splits.mp h
  exact ⟨init, _, rfl, hsplits.lexed⟩

end Token

end Scriptlet
