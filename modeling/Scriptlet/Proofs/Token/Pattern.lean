-- SUMMARY: The patterns of tokens, and that the scanner finds the longest match of any of them.
import Mathlib.Data.List.TakeWhile
import Scriptlet.Token.Scan
import Scriptlet.Proofs.Decimal.Numerals

/-!
# Patterns of tokens

Each kind of token has a pattern. A stretch of text that more than one pattern matches
is of the kind that has no other spelling. The scanner looks at the first character,
and at the first one that can belong to the lexeme no more: what it finds there is the
longest stretch that any pattern matches. It refuses a float that stands before a point.
-/
namespace Scriptlet.Token

/-! ## Patterns -/

/-- Do all tokens of the kind have the same spelling? -/
def Kind.isMark : Kind → Bool
  | .integer | .float | .string | .identifier | .invalid | .endOfInput => false
  | _ => true

/-- How a kind with a single spelling is written. -/
def Kind.spelling : Kind → String
  | .null => "null"
  | .varWord => "var"
  | .constWord => "const"
  | .funcWord => "func"
  | .returnWord => "return"
  | .equals => "="
  | .plus => "+"
  | .minus => "-"
  | .star => "*"
  | .slash => "/"
  | .openParen => "("
  | .closeParen => ")"
  | .openBrace => "\x7b"
  | .closeBrace => "\x7d"
  | .comma => ","
  | .semicolon => ";"
  | _ => ""

/-- A letter or underscore, then letters, digits and underscores. -/
def IsWord : List Char → Prop
  | [] => False
  | c :: cs => isWordStart c ∧ ∀ d ∈ cs, isWordChar d

/-- What stands between the quotes of a string, and the characters that the string has. -/
inductive Quotes : List Char → List Char → Prop
  | nil : Quotes [] []
  | plain {c : Char} {body value : List Char} (hquote : c ≠ '"') (hescape : c ≠ '\\') :
      Quotes body value → Quotes (c :: body) (c :: value)
  | lineFeed {body value : List Char} :
      Quotes body value → Quotes ('\\' :: 'n' :: body) ('\n' :: value)
  | escaped {c : Char} {body value : List Char} (hc : c ≠ 'n') :
      Quotes body value → Quotes ('\\' :: c :: body) (c :: value)

/-- The pattern of the kind matches the characters, and a token of it keeps the text. -/
inductive Matches : Kind → List Char → Option String → Prop
  | integer {cs : List Char} (h : Decimal.IsWhole cs) :
      Matches .integer cs (some (String.ofList cs))
  | float {cs : List Char} (h : Decimal.IsPointed cs) : Matches .float cs (some (String.ofList cs))
  | string {body value : List Char} (h : Quotes body value) :
      Matches .string ('"' :: (body ++ ['"'])) (some (String.ofList value))
  | identifier {cs : List Char} (h : IsWord cs) :
      Matches .identifier cs (some (String.ofList cs))
  | mark {kind : Kind} (h : kind.isMark) : Matches kind kind.spelling.toList none

/-- The characters make one token. Where they are the spelling of a mark or a keyword, they are that. -/
structure Lexes (kind : Kind) (text : Option String) (lexeme : List Char) : Prop where
  isMatch : Matches kind lexeme text
  spelled : ∀ k : Kind, k.isMark → lexeme = k.spelling.toList → kind = k

/-- The characters before `rest` make one token, and no pattern matches a longer beginning of the
text. -/
structure Munches (kind : Kind) (text : Option String) (lexeme rest : List Char) : Prop
    extends Lexes kind text lexeme where
  longest : ∀ longer tail, longer ++ tail = lexeme ++ rest → lexeme.length < longer.length →
    ∀ k s, ¬ Matches k longer s

/-- Can the character not stand behind a token of the kind? -/
def Kind.goesOn : Kind → Char → Bool
  | .integer, c | .float, c => c.isDigit || c = '.'
  | .identifier, c | .null, c | .varWord, c | .constWord, c | .funcWord, c | .returnWord, c =>
    isWordChar c
  | _, _ => false

/-- The characters before `rest` make one token, and `rest` may stand behind it. -/
structure Ends (kind : Kind) (text : Option String) (lexeme rest : List Char) : Prop
    extends Lexes kind text lexeme where
  stops : ∀ c ∈ rest.head?, kind.goesOn c = false

/-- A blank, or a comment up to the end of its line, stands before `rest`. -/
inductive Skips (rest : List Char) : List Char → Prop
  | blank {c : Char} (hc : isBlank c) : Skips rest [c]
  | comment {body : List Char} (hbody : ∀ c ∈ body, c ≠ '\n')
      (hline : ∀ c ∈ rest.head?, c = '\n') : Skips rest ('#' :: body)

variable {kind k : Kind} {text : Option String} {c : Char} {cs body value lexeme rest : List Char}
  {offset : Nat}

/-- The mark or keyword of the spelling, if there is one. -/
def Kind.ofSpelling? : List Char → Option Kind
  | [c] => ofMark? c
  | cs => some (ofWord cs)

theorem Kind.ofSpelling?_spelling (hk : k.isMark) : ofSpelling? k.spelling.toList = some k := by
  cases k <;> first | rfl | cases hk

/-- Each mark and keyword is told by its spelling. -/
theorem Kind.eq_of_spelling {l : Kind} (hk : k.isMark) (hl : l.isMark)
    (h : k.spelling.toList = l.spelling.toList) : k = l :=
  Option.some.inj ((ofSpelling?_spelling hk).symm.trans (h ▸ ofSpelling?_spelling hl))

theorem lexes_mark (h : kind.isMark) : Lexes kind none kind.spelling.toList where
  isMatch := .mark h
  spelled _ hk heq := Kind.eq_of_spelling h hk heq

theorem Lexes.kind_eq_iff (h : Lexes kind text lexeme) (hk : k.isMark) :
    kind = k ↔ lexeme = k.spelling.toList := by
  refine ⟨?_, h.spelled k hk⟩
  rintro rfl
  cases h.isMatch with
  | mark => rfl
  | integer | float | string | identifier => cases hk

/-- What a pattern matches makes a token, if only of a kind that comes before. -/
theorem Matches.exists_lexes (h : Matches kind cs text) : ∃ k s, Lexes k s cs := by
  by_cases hspelled : ∃ k : Kind, k.isMark ∧ cs = k.spelling.toList
  · obtain ⟨k, hk, rfl⟩ := hspelled
    exact ⟨k, none, lexes_mark hk⟩
  · exact ⟨kind, text, h, fun k hk heq => absurd ⟨k, hk, heq⟩ hspelled⟩

theorem Matches.ne_endOfInput (h : Matches kind cs text) : kind ≠ .endOfInput := by
  rintro rfl
  cases h with
  | mark h => cases h

/-! ## Classes of characters -/

/-- The characters that separate words. -/
theorem separator_cases (h : isBlank c ∨ c = '#') :
    c = ' ' ∨ c = '\t' ∨ c = '\n' ∨ c = '\r' ∨ c = '\x0B' ∨ c = '\x0C' ∨ c = '#' := by
  simpa [isBlank, or_assoc] using h

theorem isDigit_separator (h : isBlank c ∨ c = '#') : c.isDigit = false := by
  rcases separator_cases h with rfl | rfl | rfl | rfl | rfl | rfl | rfl <;> rfl

theorem isWordChar_separator (h : isBlank c ∨ c = '#') : isWordChar c = false := by
  rcases separator_cases h with rfl | rfl | rfl | rfl | rfl | rfl | rfl <;> rfl

/-- A blank or a comment may stand behind every token. -/
theorem Kind.goesOn_separator (h : isBlank c ∨ c = '#') (kind : Kind) : kind.goesOn c = false := by
  have hpoint : c ≠ '.' := by
    rintro rfl
    rcases separator_cases h with h | h | h | h | h | h | h <;> cases h
  cases kind <;> simp [goesOn, isDigit_separator h, isWordChar_separator h, hpoint]

theorem takeWhile_append_stop {p : Char → Bool} (hcs : ∀ c ∈ cs, p c)
    (hrest : ∀ c ∈ rest.head?, p c = false) : (cs ++ rest).takeWhile p = cs := by
  rw [List.takeWhile_append_of_pos hcs]
  cases rest with
  | nil => rw [List.takeWhile_nil, List.append_nil]
  | cons c rest => rw [List.takeWhile_cons_of_neg (by simp [hrest c rfl]), List.append_nil]

/-- A text begins with a run of some characters, which another character ends. -/
theorem exists_run (p : Char → Bool) (cs : List Char) :
    ∃ run rest, cs = run ++ rest ∧ (∀ c ∈ run, p c) ∧ ∀ c ∈ rest.head?, p c = false := by
  refine ⟨cs.takeWhile p, cs.dropWhile p, List.takeWhile_append_dropWhile.symm,
    fun c hc => List.mem_takeWhile_imp hc, fun c hc => ?_⟩
  have hstop := List.head?_dropWhile_not p cs
  rwa [hc] at hstop

/-! ## Words and marks -/

theorem isWordStart_start (h : isWordStart c) :
    isBlank c = false ∧ c ≠ '#' ∧ c.isDigit = false ∧ c ≠ '"' := by
  refine ⟨?_, ?_, ?_, ?_⟩
  · rw [Bool.eq_false_iff]
    intro hblank
    rcases separator_cases (.inl hblank) with rfl | rfl | rfl | rfl | rfl | rfl | rfl <;> cases h
  · rintro rfl
    cases h
  · rw [Bool.eq_false_iff]
    intro hdigit
    simp only [isWordStart, Char.isAlpha, Char.isUpper, Char.isLower, Char.isDigit,
      Bool.or_eq_true, Bool.and_eq_true, decide_eq_true_eq] at h hdigit
    rcases h with (h | h) | rfl
    · exact absurd (UInt32.le_trans h.1 hdigit.2) (by decide)
    · exact absurd (UInt32.le_trans h.1 hdigit.2) (by decide)
    · exact absurd hdigit.2 (by decide)
  · rintro rfl
    cases h

theorem first_word (hc : isWordStart c)
    (hcs : ∀ d ∈ cs, isWordChar d) (hrest : ∀ d ∈ rest.head?, isWordChar d = false) :
    Lexeme.first offset c (cs ++ rest) = .ok ⟨some (Kind.ofWord (c :: cs)), cs.length⟩ := by
  obtain ⟨hblank, hcomment, hdigit, hquote⟩ := isWordStart_start hc
  simp only [Lexeme.first, hblank, hcomment, hdigit, hquote, hc, takeWhile_append_stop hcs hrest,
    if_true, if_false, Bool.false_eq_true]

/-- What is written with one spelling is a word of its own, or a single character. -/
theorem Kind.isMark_cases (h : kind.isMark) :
    (IsWord kind.spelling.toList ∧ ofWord kind.spelling.toList = kind ∧
      ∀ c, kind.goesOn c = isWordChar c) ∨
    ∃ c, kind.spelling.toList = [c] ∧ isWordStart c = false ∧ (∀ d, kind.goesOn d = false) ∧
      ∀ offset cs, Lexeme.first offset c cs = .ok ⟨some kind, 0⟩ := by
  cases kind
  case null | varWord | constWord | funcWord | returnWord =>
    exact .inl ⟨⟨rfl, List.all_eq_true.mp rfl⟩, rfl, fun _ => rfl⟩
  all_goals first
    | exact .inr ⟨_, rfl, rfl, fun _ => rfl, fun _ _ => rfl⟩
    | cases h

/-- A word is an identifier if it is no keyword. -/
theorem Kind.ofWord_cases (word : List Char) : ofWord word = .identifier ∨
      (ofWord word).isMark ∧ word = (ofWord word).spelling.toList := by
  unfold ofWord
  split
  case h_6 => exact .inl rfl
  all_goals
    next hword =>
      refine .inr ⟨rfl, ?_⟩
      rw [← String.toList_ofList (l := word), hword]
      rfl

theorem Kind.spelling_head (h : kind.isMark) :
    ∀ c ∈ kind.spelling.toList.head?, c.isDigit = false ∧ c ≠ '"' := by
  intro c hc
  cases kind <;> cases h <;> cases hc <;> exact ⟨rfl, by decide⟩

/-- Nothing that is written with one spelling begins like a number or a string. -/
theorem Matches.lexes (h : Matches kind (c :: cs) text) (hc : c.isDigit ∨ c = '"') :
    Lexes kind text (c :: cs) where
  isMatch := h
  spelled k hk heq := by
    obtain ⟨hdigit, hquote⟩ := Kind.spelling_head hk c (by rw [← heq]; rfl)
    obtain hc | hc := hc
    · rw [hc] at hdigit
      cases hdigit
    · exact absurd hc hquote

theorem lexes_integer (h : Decimal.IsWhole cs) : Lexes .integer (some (String.ofList cs)) cs := by
  obtain ⟨c, cs, rfl⟩ := List.exists_cons_of_ne_nil h.nonempty
  exact (Matches.integer h).lexes (.inl h.head_isDigit)

theorem lexes_float (h : Decimal.IsPointed cs) : Lexes .float (some (String.ofList cs)) cs := by
  obtain ⟨whole, fraction, hwhole, hfraction, rfl⟩ := h
  have hmatch := Matches.float ⟨whole, fraction, hwhole, hfraction, rfl⟩
  obtain ⟨c, cs, rfl⟩ := List.exists_cons_of_ne_nil hwhole.nonempty
  exact hmatch.lexes (.inl hwhole.head_isDigit)

theorem lexes_string (h : Quotes body value) :
    Lexes .string (some (String.ofList value)) ('"' :: (body ++ ['"'])) :=
  (Matches.string h).lexes (.inr rfl)

theorem Kind.ofMark?_eq_some (h : ofMark? c = some kind) :
    kind.isMark ∧ kind.spelling.toList = [c] := by
  unfold ofMark? at h
  split at h <;> cases h <;> exact ⟨rfl, rfl⟩

theorem Kind.textOf?_mark (h : kind.isMark) (lexeme : List Char) : kind.textOf? lexeme = none := by
  cases kind <;> first | rfl | cases h

/-- A word is the spelling of one kind, or an identifier. -/
theorem IsWord.ends {word : List Char} (h : IsWord word)
    (hrest : ∀ d ∈ rest.head?, isWordChar d = false) :
    Ends (Kind.ofWord word) ((Kind.ofWord word).textOf? word) word rest := by
  have hkeyword {k : Kind} (hk : k.isMark) (heq : word = k.spelling.toList) :
      Kind.ofWord word = k ∧ ∀ c, k.goesOn c = isWordChar c := by
    subst heq
    obtain ⟨-, hword, hgoesOn⟩ | ⟨c, hc, hstart, -⟩ := Kind.isMark_cases hk
    · exact ⟨hword, hgoesOn⟩
    · rw [hc] at h
      rw [h.1] at hstart
      cases hstart
  obtain hword | ⟨hmark, heq⟩ := Kind.ofWord_cases word
  · rw [hword] at hkeyword ⊢
    exact ⟨⟨.identifier h, fun k hk heq => (hkeyword hk heq).1⟩, hrest⟩
  · have hlexes := lexes_mark hmark
    rw [← heq] at hlexes
    rw [Kind.textOf?_mark hmark]
    refine ⟨hlexes, fun d hd => ?_⟩
    rw [(hkeyword hmark heq).2]
    exact hrest d hd

/-! ## Numbers -/

theorem first_number (hc : c.isDigit) : Lexeme.first offset c cs = Lexeme.number offset c cs := by
  have hseparator : ¬ (isBlank c ∨ c = '#') := by
    intro h
    rw [isDigit_separator h] at hc
    cases hc
  rw [not_or, Bool.not_eq_true] at hseparator
  simp only [Lexeme.first, hseparator.1, hseparator.2, hc, if_true, if_false, Bool.false_eq_true]

theorem number_whole (hcs : ∀ d ∈ cs, d.isDigit)
    (hrest : ∀ d ∈ rest.head?, Kind.integer.goesOn d = false) :
    Lexeme.number offset c (cs ++ rest) = .ok ⟨some .integer, cs.length⟩ := by
  simp only [Kind.goesOn, Bool.or_eq_false_iff, decide_eq_false_iff_not] at hrest
  simp only [Lexeme.number, takeWhile_append_stop hcs fun d hd => (hrest d hd).1, List.drop_left]
  split
  · exact absurd rfl (hrest '.' rfl).2
  · rfl

theorem takeWhile_pointed (hcs : ∀ d ∈ cs, d.isDigit) :
    (cs ++ '.' :: rest).takeWhile Char.isDigit = cs :=
  takeWhile_append_stop hcs fun d hd => by cases hd; rfl

theorem number_pointed {fraction : List Char}
    (hcs : ∀ d ∈ cs, d.isDigit) (hfraction : ∀ d ∈ fraction, d.isDigit)
    (hrest : ∀ d ∈ rest.head?, Kind.float.goesOn d = false) :
    Lexeme.number offset c (cs ++ '.' :: fraction ++ rest) =
      .ok ⟨some .float, (cs ++ '.' :: fraction).length⟩ := by
  simp only [Kind.goesOn, Bool.or_eq_false_iff, decide_eq_false_iff_not] at hrest
  rw [List.append_assoc, List.cons_append]
  simp only [Lexeme.number, takeWhile_pointed hcs, List.drop_left,
    takeWhile_append_stop hfraction fun d hd => (hrest d hd).1]
  split
  · exact absurd rfl (hrest '.' rfl).2
  · simp [Nat.add_assoc, Nat.add_comm 1]

/-- A float before a point is refused, at that point. -/
theorem number_second_point (offset : Nat) (c : Char) {fraction : List Char}
    (hcs : ∀ d ∈ cs, d.isDigit) (hfraction : ∀ d ∈ fraction, d.isDigit) (rest : List Char) :
    Lexeme.number offset c (cs ++ '.' :: (fraction ++ '.' :: rest)) =
      .error (.secondDecimalPoint (offset + Text.byteLength (c :: (cs ++ '.' :: fraction)))) := by
  have htake : (cs ++ '.' :: (fraction ++ '.' :: rest)).take (cs.length + 1 + fraction.length) =
      cs ++ '.' :: fraction := by
    rw [← List.cons_append, ← List.append_assoc]
    exact List.take_left' (by simp; omega)
  simp only [Lexeme.number, takeWhile_pointed hcs, List.drop_left, takeWhile_pointed hfraction,
    htake]

/-- A number is refused for no other reason. -/
theorem exists_second_point {e : LexError} (h : Lexeme.number offset c cs = .error e) :
    ∃ whole fraction rest, cs = whole ++ '.' :: (fraction ++ '.' :: rest) ∧
      (∀ d ∈ whole, d.isDigit) ∧ ∀ d ∈ fraction, d.isDigit := by
  obtain ⟨whole, rest, rfl, hwhole, hrest⟩ := exists_run Char.isDigit cs
  simp only [Lexeme.number, takeWhile_append_stop hwhole hrest, List.drop_left] at h
  split at h
  · rename_i tail
    obtain ⟨fraction, rest, rfl, hfraction, hstop⟩ := exists_run Char.isDigit tail
    rw [takeWhile_append_stop hfraction hstop, List.drop_left] at h
    split at h
    · exact ⟨whole, fraction, _, rfl, hwhole, hfraction⟩
    · cases h
  · cases h

/-- A number, if it is not refused, ends at the first character that can belong to it no more. -/
theorem exists_ends_of_number {found : Lexeme} (hc : c.isDigit)
    (h : Lexeme.number offset c cs = .ok found) :
    ∃ kind text tail rest, cs = tail ++ rest ∧ Ends kind text (c :: tail) rest := by
  have hstops {rest : List Char} (hdigit : ∀ d ∈ rest.head?, d.isDigit = false)
      (hpoint : ∀ tail, rest ≠ '.' :: tail) :
      ∀ d ∈ rest.head?, (d.isDigit || decide (d = '.')) = false := by
    intro d hd
    obtain ⟨tail, rfl⟩ := List.head?_eq_some_iff.mp hd
    have hne : d ≠ '.' := fun heq => hpoint tail (heq ▸ rfl)
    simp [hdigit d rfl, hne]
  obtain ⟨whole, rest, rfl, hwhole, hrest⟩ := exists_run Char.isDigit cs
  have hdigits : Decimal.IsWhole (c :: whole) :=
    ⟨List.cons_ne_nil _ _, List.forall_mem_cons.mpr ⟨hc, hwhole⟩⟩
  by_cases hpoint : ∃ tail, rest = '.' :: tail
  · obtain ⟨tail, rfl⟩ := hpoint
    obtain ⟨fraction, rest, rfl, hfraction, hrest⟩ := exists_run Char.isDigit tail
    have hsecond : ∀ tail, rest ≠ '.' :: tail := by
      rintro tail rfl
      rw [number_second_point offset c hwhole hfraction tail] at h
      cases h
    exact ⟨.float, _, whole ++ '.' :: fraction, rest, by rw [List.append_assoc]; rfl,
      lexes_float ⟨c :: whole, fraction, hdigits, hfraction, rfl⟩, hstops hrest hsecond⟩
  · exact ⟨.integer, _, whole, rest, rfl, lexes_integer hdigits,
      hstops hrest fun tail heq => hpoint ⟨tail, heq⟩⟩

/-! ## Strings -/

theorem closedAfter?_cons (h : c ≠ '\\') :
    closedAfter? (c :: cs) = if c = '"' then some 1 else (closedAfter? cs).map (· + 1) := by
  rw [closedAfter?] <;> simp [h]

theorem unescape_cons (h : c ≠ '\\') : unescape (c :: cs) = c :: unescape cs := by
  rw [unescape] <;> simp [h]

theorem Quotes.closedAfter? (h : Quotes body value) (rest : List Char) :
    closedAfter? (body ++ '"' :: rest) = some (body.length + 1) := by
  induction h with
  | nil => rfl
  | plain hquote hescape _ ih =>
    rw [List.cons_append, closedAfter?_cons hescape, if_neg hquote, ih]
    rfl
  | lineFeed _ ih | escaped _ _ ih => simp [Token.closedAfter?, ih]

theorem Quotes.unescape (h : Quotes body value) : unescape body = value := by
  induction h with
  | nil => rfl
  | plain _ hescape _ ih => rw [unescape_cons hescape, ih]
  | lineFeed _ ih => simp [Token.unescape, ih]
  | escaped hc _ ih => simp [Token.unescape, hc, ih]

/-- A string that is closed is closed by the first quote that no backslash escapes. -/
theorem exists_quotes {more : Nat} (h : closedAfter? cs = some more) :
    ∃ body value rest, cs = body ++ '"' :: rest ∧ Quotes body value := by
  fun_induction closedAfter? cs generalizing more with
  | case1 => cases h
  | case2 => cases h
  | case3 c cs ih =>
    obtain ⟨more, hmore, -⟩ := Option.map_eq_some_iff.mp h
    obtain ⟨body, value, rest, rfl, hbody⟩ := ih hmore
    by_cases hc : c = 'n'
    · subst hc
      exact ⟨_, _, rest, rfl, .lineFeed hbody⟩
    · exact ⟨'\\' :: c :: body, _, rest, rfl, .escaped hc hbody⟩
  | case4 cs hcs => exact ⟨[], [], cs, rfl, .nil⟩
  | case5 c cs hnil hescaped hquote ih =>
    have hescape : c ≠ '\\' := by
      rintro rfl
      cases cs with
      | nil => exact hnil rfl rfl
      | cons d cs => exact hescaped d cs rfl rfl
    obtain ⟨more, hmore, -⟩ := Option.map_eq_some_iff.mp h
    obtain ⟨body, value, rest, rfl, hbody⟩ := ih hmore
    exact ⟨c :: body, _, rest, rfl, .plain hquote hescape hbody⟩

theorem first_string (h : Quotes body value) (rest : List Char) :
    Lexeme.first offset '"' (body ++ ['"'] ++ rest) =
      .ok ⟨some .string, (body ++ ['"']).length⟩ := by
  rw [List.append_assoc, List.singleton_append]
  simp only [Lexeme.first, Lexeme.string, h.closedAfter? rest]
  simp [isBlank]

/-! ## The first lexeme -/

/-- What makes one token, and cannot go on behind it, is the first lexeme. -/
theorem Ends.first (h : Ends kind text lexeme rest) (offset : Nat) :
    ∃ c cs, lexeme = c :: cs ∧ Lexeme.first offset c (cs ++ rest) = .ok ⟨some kind, cs.length⟩ ∧
      kind.textOf? lexeme = text := by
  obtain ⟨⟨hmatch, hspelled⟩, hstops⟩ := h
  cases hmatch with
  | integer hwhole =>
    obtain ⟨c, cs, rfl⟩ := List.exists_cons_of_ne_nil hwhole.nonempty
    refine ⟨c, cs, rfl, ?_, rfl⟩
    rw [first_number hwhole.head_isDigit]
    exact number_whole (fun d hd => hwhole.digits d (List.mem_cons_of_mem _ hd)) hstops
  | float hpointed =>
    obtain ⟨whole, fraction, hwhole, hfraction, rfl⟩ := hpointed
    obtain ⟨c, cs, rfl⟩ := List.exists_cons_of_ne_nil hwhole.nonempty
    refine ⟨c, cs ++ '.' :: fraction, rfl, ?_, rfl⟩
    rw [first_number hwhole.head_isDigit]
    exact number_pointed (fun d hd => hwhole.digits d (List.mem_cons_of_mem _ hd)) hfraction hstops
  | @string body value hquotes =>
    refine ⟨'"', body ++ ['"'], rfl, first_string hquotes rest, ?_⟩
    rw [Kind.textOf?, List.tail_cons, List.dropLast_concat, hquotes.unescape]
  | identifier hword =>
    obtain hid | ⟨hmark, heq⟩ := Kind.ofWord_cases lexeme
    · cases lexeme with
      | nil => cases hword
      | cons c cs => exact ⟨c, cs, rfl, hid ▸ first_word hword.1 hword.2 hstops, rfl⟩
    · rw [← hspelled _ hmark heq] at hmark
      cases hmark
  | mark hmark =>
    rw [Kind.textOf?_mark hmark]
    obtain ⟨hword, hkind, hgoesOn⟩ | ⟨c, hc, -, -, hfirst⟩ := Kind.isMark_cases hmark
    · cases hspelling : kind.spelling.toList with
      | nil => rw [hspelling] at hword; cases hword
      | cons c cs =>
        rw [hspelling] at hword hkind
        refine ⟨c, cs, rfl, ?_, rfl⟩
        rw [first_word hword.1 hword.2 fun d hd => (hgoesOn d).symm.trans (hstops d hd), hkind]
    · exact ⟨c, [], hc, hfirst offset rest, rfl⟩

theorem Skips.first (h : Skips rest (c :: cs)) (offset : Nat) :
    Lexeme.first offset c (cs ++ rest) = .ok ⟨none, cs.length⟩ := by
  cases h with
  | blank hc => rw [Lexeme.first, if_pos hc, List.length_nil]
  | comment hbody hline =>
    have hbody : (cs ++ rest).takeWhile (· ≠ '\n') = cs :=
      takeWhile_append_stop (by simpa using hbody) (by simpa using hline)
    rw [Lexeme.first, if_neg (by decide), if_pos rfl, hbody]

/-- The first lexeme of a text is a blank, a comment or a token. -/
theorem first_cases {found : Lexeme} (h : Lexeme.first offset c cs = .ok found) :
    (∃ part rest, cs = part ++ rest ∧ Skips rest (c :: part)) ∨
    ∃ kind text tail rest, cs = tail ++ rest ∧ Ends kind text (c :: tail) rest := by
  unfold Lexeme.first at h
  split at h
  · next hblank => exact .inl ⟨[], cs, rfl, .blank hblank⟩
  split at h
  · next hcomment =>
    subst hcomment
    obtain ⟨body, rest, rfl, hbody, hline⟩ := exists_run (· ≠ '\n') cs
    exact .inl ⟨body, rest, rfl, .comment (by simpa using hbody) (by simpa using hline)⟩
  refine .inr ?_
  split at h
  · next hdigit => exact exists_ends_of_number hdigit h
  split at h
  · next hquote =>
    subst hquote
    unfold Lexeme.string at h
    split at h
    · next hclosed =>
      obtain ⟨body, value, rest, rfl, hbody⟩ := exists_quotes hclosed
      exact ⟨.string, _, body ++ ['"'], rest, by rw [List.append_assoc]; rfl,
        lexes_string hbody, fun _ _ => rfl⟩
    · split at h <;> cases h
  split at h
  · next hstart =>
    obtain ⟨tail, rest, rfl, htail, hrest⟩ := exists_run isWordChar cs
    have hword : IsWord (c :: tail) := ⟨hstart, htail⟩
    exact ⟨_, _, tail, rest, rfl, hword.ends hrest⟩
  split at h
  · next hstart _ kind hmark =>
    obtain ⟨hmark, hspelling⟩ := Kind.ofMark?_eq_some hmark
    have hlexes := lexes_mark hmark
    rw [hspelling] at hlexes
    refine ⟨kind, none, [], cs, rfl, hlexes, fun d _ => ?_⟩
    obtain ⟨hword, -⟩ | ⟨_, -, -, hgoesOn, -⟩ := Kind.isMark_cases hmark
    · rw [hspelling] at hword
      exact absurd hword.1 hstart
    · exact hgoesOn d
  · cases h

/-- Where there is no lexeme, a number has a second point, a string is not closed, or the character
can begin nothing. -/
theorem first_error_cases {e : LexError} (h : Lexeme.first offset c cs = .error e) :
    (c.isDigit ∧ Lexeme.number offset c cs = .error e) ∨
    (c = '"' ∧ Lexeme.string offset cs = .error e) ∨
    e = .unexpectedCharacter c offset ∧ isBlank c = false ∧ c ≠ '#' ∧
      ∀ offset cs, Lexeme.first offset c cs = .error (.unexpectedCharacter c offset) := by
  unfold Lexeme.first at h
  split at h
  · cases h
  next hblank =>
  split at h
  · cases h
  next hcomment =>
  split at h
  · next hdigit => exact .inl ⟨hdigit, h⟩
  next hdigit =>
  split at h
  · next hquote => exact .inr (.inl ⟨hquote, h⟩)
  next hquote =>
  split at h
  · cases h
  next hstart =>
  split at h
  · cases h
  next hmark =>
  cases h
  refine .inr (.inr ⟨rfl, Bool.eq_false_iff.mpr hblank, hcomment, fun offset cs => ?_⟩)
  rw [Lexeme.first, if_neg hblank, if_neg hcomment, if_neg hdigit, if_neg hquote, if_neg hstart,
    hmark]

/-! ## Longest matches -/

theorem IsWord.snoc (h : IsWord cs) (hc : isWordChar c) : IsWord (cs ++ [c]) := by
  cases cs with
  | nil => cases h
  | cons d cs =>
    exact ⟨h.1, List.forall_mem_append.mpr ⟨h.2, List.forall_mem_singleton.mpr hc⟩⟩

/-- A character that cannot stand behind a token makes it a longer one, unless it is a second
point. -/
theorem Matches.snoc (h : Matches kind cs text)
     (hc : kind.goesOn c) (hpoint : kind = .float → c ≠ '.') :
    ∃ k s, Matches k (cs ++ [c]) s := by
  cases h with
  | integer h =>
    obtain hdigit | rfl : c.isDigit ∨ c = '.' := by simpa [Kind.goesOn] using hc
    · have hdigits := List.forall_mem_append.mpr ⟨h.digits, List.forall_mem_singleton.mpr hdigit⟩
      exact ⟨_, _, .integer ⟨by simp, hdigits⟩⟩
    · exact ⟨_, _, .float ⟨cs, [], h, nofun, rfl⟩⟩
  | float h =>
    obtain ⟨whole, fraction, hwhole, hfraction, rfl⟩ := h
    have hdigit : c.isDigit := by simpa [Kind.goesOn, hpoint rfl] using hc
    have hdigits := List.forall_mem_append.mpr ⟨hfraction, List.forall_mem_singleton.mpr hdigit⟩
    exact ⟨_, _, .float ⟨whole, fraction ++ [c], hwhole, hdigits, by simp⟩⟩
  | string h => cases hc
  | identifier h => exact ⟨_, _, .identifier (h.snoc hc)⟩
  | mark h =>
    obtain ⟨hword, -, hgoesOn⟩ | ⟨_, -, -, hgoesOn, -⟩ := Kind.isMark_cases h
    · exact ⟨_, _, .identifier (hword.snoc (hgoesOn c ▸ hc))⟩
    · rw [hgoesOn] at hc
      cases hc

theorem Matches.ne_nil (h : Matches kind cs text) : cs ≠ [] := by
  obtain ⟨k, s, hlexes⟩ := h.exists_lexes
  have hends : Ends k s cs [] := ⟨hlexes, nofun⟩
  obtain ⟨c, cs, rfl, -⟩ := hends.first 0
  exact List.cons_ne_nil c cs

/-- No pattern matches a longer beginning of a text than the token that ends there. -/
theorem Ends.eq_nil_of_matches {s : Option String}
    {more tail : List Char} (h : Ends kind text lexeme (more ++ tail))
    (hmatch : Matches k (lexeme ++ more) s) : more = [] := by
  by_contra hmore
  obtain ⟨d, ds, rfl⟩ := List.exists_cons_of_ne_nil hmore
  -- Read alone, what is longer begins with the shorter lexeme, and is a lexeme as a whole.
  have hshort : Ends kind text lexeme (d :: ds) := ⟨h.toLexes, h.stops⟩
  obtain ⟨c, cs, rfl, hfirst, -⟩ := hshort.first 0
  obtain ⟨k, s, hlonger⟩ := hmatch.exists_lexes
  have hlong : Ends k s (c :: cs ++ d :: ds) [] := ⟨hlonger, nofun⟩
  obtain ⟨c', cs', heq, hfirst', -⟩ := hlong.first 0
  rw [List.cons_append, List.cons.injEq] at heq
  obtain ⟨rfl, rfl⟩ := heq
  rw [List.append_nil, hfirst, Except.ok.injEq, Lexeme.mk.injEq] at hfirst'
  simp at hfirst'

/-- A token ends where nothing behind it can belong to it, and that is where no longer beginning of
the text matches. But behind a float, a point belongs to nothing and is refused all the same. -/
theorem ends_iff_munches : Ends kind text lexeme rest ↔
      Munches kind text lexeme rest ∧ (kind = .float → rest.head? ≠ some '.') := by
  constructor
  · intro h
    refine ⟨⟨h.toLexes, fun longer tail heq hlength k s hmatch => ?_⟩, fun hkind hpoint => ?_⟩
    · obtain ⟨more, rfl, rfl⟩ | ⟨more, rfl, rfl⟩ := List.append_eq_append_iff.mp heq
      · rw [List.length_append] at hlength
        omega
      · rw [h.eq_nil_of_matches hmatch, List.append_nil] at hlength
        exact Nat.lt_irrefl _ hlength
    · have hstops := h.stops '.' hpoint
      rw [hkind] at hstops
      cases hstops
  · rintro ⟨h, hpoint⟩
    refine ⟨h.toLexes, fun c hc => ?_⟩
    rw [Bool.eq_false_iff]
    intro hgoesOn
    obtain ⟨tail, rfl⟩ := List.head?_eq_some_iff.mp hc
    obtain ⟨k, s, hmatch⟩ := h.isMatch.snoc hgoesOn fun hkind heq => hpoint hkind (heq ▸ rfl)
    exact h.longest _ tail (by simp) (by simp) k s hmatch

end Scriptlet.Token
