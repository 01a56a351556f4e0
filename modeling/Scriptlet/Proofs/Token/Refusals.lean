-- SUMMARY: Where and why a text is refused, and when more text makes no difference to that.
import Scriptlet.Proofs.Token.Tiling

/-!
# Refused texts

A text is refused at a place before which it was split into tokens. There stands a string
that is never closed, a float with a point behind it, or a character that nothing begins
with; each has a fault of its own. A string that is not closed yet may be closed by what
is added to the text. In the two other cases nothing that is added makes a difference.
-/
namespace Scriptlet.Token

open Text

variable {c : Char} {cs body whole fraction rest : List Char} {offset : Nat} {e : LexError}
  {kind : Kind} {text : Option String}

/-! ## Escapes at the end -/

/-- The number of backslashes that the characters end in. -/
def trailingEscapes (cs : List Char) : Nat := (cs.reverse.takeWhile (· = '\\')).length

theorem trailingEscapes_le_length (cs : List Char) : trailingEscapes cs ≤ cs.length :=
  (List.takeWhile_prefix _).length_le.trans_eq List.length_reverse

theorem trailingEscapes_cons (c : Char) (cs : List Char) :
    trailingEscapes (c :: cs) =
      if trailingEscapes cs = cs.length ∧ c = '\\' then trailingEscapes cs + 1
      else trailingEscapes cs := by
  simp only [trailingEscapes, List.reverse_cons, List.takeWhile_append, List.length_reverse]
  split
  · next hall => by_cases hc : c = '\\' <;> simp [hall, hc]
  · next hall => simp [hall]

/-- An escaped character makes no difference, be it a backslash or not. -/
theorem odd_trailingEscapes_escaped (c : Char) (cs : List Char) :
    Odd (trailingEscapes ('\\' :: c :: cs)) ↔ Odd (trailingEscapes cs) := by
  have hle := trailingEscapes_le_length cs
  rw [trailingEscapes_cons, trailingEscapes_cons, List.length_cons]
  by_cases hboth : trailingEscapes cs = cs.length ∧ c = '\\'
  · rw [if_pos hboth, if_pos ⟨by omega, rfl⟩, Nat.odd_add_one, Nat.odd_add_one, not_not]
  · rw [if_neg hboth, if_neg (by omega)]

/-- Each escaped character takes the backslash before it, so the last backslash escapes nothing if they
are odd in number. -/
theorem endsInEscape_iff_odd (cs : List Char) : endsInEscape cs ↔ Odd (trailingEscapes cs) := by
  fun_induction endsInEscape cs with
  | case1 => decide
  | case2 => decide
  | case3 c cs ih => rw [ih, odd_trailingEscapes_escaped]
  | case4 c cs hnil hescaped ih =>
    have hc : c ≠ '\\' := by
      rintro rfl
      cases cs with
      | nil => exact hnil rfl rfl
      | cons d cs => exact hescaped d cs rfl rfl
    rw [ih, trailingEscapes_cons, if_neg (by simp [hc])]

/-! ## Reasons -/

/-- No quote closes the string that a quote before the characters opens. -/
def Unclosed (cs : List Char) : Prop :=
  ∀ body value rest, Quotes body value → cs ≠ body ++ '"' :: rest

theorem closedAfter?_eq_none : closedAfter? cs = none ↔ Unclosed cs := by
  constructor
  · rintro h body value rest hbody rfl
    rw [hbody.closedAfter?] at h
    cases h
  · intro h
    rw [Option.eq_none_iff_forall_ne_some]
    intro more hclosed
    obtain ⟨body, value, rest, rfl, hbody⟩ := exists_quotes hclosed
    exact h body value rest hbody rfl

/-- Why a text is refused at some place. -/
inductive Reason where
  | openString
  | secondPoint
  | strayCharacter
  deriving Repr, DecidableEq

/-- The characters that stand at `offset`, up to the end of the text, are refused for the reason, and the
fault is this one. -/
inductive Refused (offset : Nat) : Reason → List Char → LexError → Prop
  /-- The last byte of the text is a backslash that escapes nothing. -/
  | danglingEscape {body : List Char} (hopen : Unclosed body) (hodd : Odd (trailingEscapes body)) :
      Refused offset .openString ('"' :: body)
        (.danglingEscape (offset + byteLength ('"' :: body) - 1))
  | unterminated {body : List Char} (hopen : Unclosed body) (heven : ¬ Odd (trailingEscapes body)) :
      Refused offset .openString ('"' :: body) (.unterminatedString offset)
  | secondPoint {number rest : List Char} {text : Option String}
      (hnumber : Munches .float text number ('.' :: rest)) :
      Refused offset .secondPoint (number ++ '.' :: rest)
        (.secondDecimalPoint (offset + byteLength number))
  | stray {c : Char} {rest : List Char} (hblank : isBlank c = false) (hcomment : c ≠ '#')
      (hnone : ∀ kind lexeme text, ¬ Matches kind (c :: lexeme) text) :
      Refused offset .strayCharacter (c :: rest) (.unexpectedCharacter c offset)

/-- The reason is told by the first character. -/
def Reason.ofHead (c : Char) : Reason :=
  if c = '"' then .openString else if c.isDigit then .secondPoint else .strayCharacter

theorem Refused.reason_eq {why : Reason} (h : Refused offset why (c :: cs) e) : why = .ofHead c := by
  generalize htext : c :: cs = rest at h
  cases h with
  | danglingEscape | unterminated =>
    cases htext
    rfl
  | secondPoint hnumber =>
    cases hnumber.isMatch with
    | float hpointed =>
      obtain ⟨whole, fraction, hwhole, -, rfl⟩ := hpointed
      obtain ⟨d, ds, rfl⟩ := List.exists_cons_of_ne_nil hwhole.nonempty
      cases htext
      have hquote : c ≠ '"' := by
        rintro rfl
        cases hwhole.head_isDigit
      rw [Reason.ofHead, if_neg hquote, if_pos hwhole.head_isDigit]
    | mark h => cases h
  | stray hblank hcomment hnone =>
    cases htext
    have hquote : c ≠ '"' := by
      rintro rfl
      exact hnone _ _ _ (.string .nil)
    have hdigit : ¬ c.isDigit := fun hc =>
      hnone _ _ _ (.integer ⟨List.cons_ne_nil c [], List.forall_mem_singleton.mpr hc⟩)
    rw [Reason.ofHead, if_neg hquote, if_neg hdigit]

/-! ## Where no lexeme stands -/

theorem first_quote (offset : Nat) (cs : List Char) :
    Lexeme.first offset '"' cs = Lexeme.string offset cs := by
  simp [Lexeme.first, isBlank]

theorem last_byte (offset : Nat) (cs : List Char) :
    offset + byteLength ('"' :: cs) - 1 = offset + byteLength cs := by
  rw [byteLength_cons, Nat.add_left_comm]
  exact Nat.add_sub_cancel_left ..

/-- Read alone, what a pattern matches is a lexeme. -/
theorem Matches.exists_first (h : Matches kind (c :: cs) text) (offset : Nat) :
    ∃ found, Lexeme.first offset c cs = .ok found := by
  obtain ⟨k, s, hlexes⟩ := h.exists_lexes
  have hends : Ends k s (c :: cs) [] := ⟨hlexes, nofun⟩
  obtain ⟨d, ds, heq, hfirst, -⟩ := hends.first offset
  cases heq
  rw [List.append_nil] at hfirst
  exact ⟨_, hfirst⟩

/-- Nothing that begins with a float and a second point is matched by a pattern. -/
theorem munches_before_point (hwhole : Decimal.IsWhole (c :: whole))
    (hfraction : ∀ d ∈ fraction, d.isDigit) (rest : List Char) :
    ∃ text, Munches .float text (c :: (whole ++ '.' :: fraction)) ('.' :: rest) := by
  have hlexes := lexes_float ⟨c :: whole, fraction, hwhole, hfraction, rfl⟩
  refine ⟨_, hlexes, fun longer tail heq hlength k s hmatch => ?_⟩
  obtain ⟨more, hshort, -⟩ | ⟨more, rfl, hmore⟩ := List.append_eq_append_iff.mp heq
  · rw [hshort, List.length_append] at hlength
    omega
  · cases more with
    | nil =>
      rw [List.append_nil] at hlength
      exact Nat.lt_irrefl _ hlength
    | cons d more =>
      cases hmore
      rw [List.cons_append, List.append_assoc, List.cons_append] at hmatch
      obtain ⟨found, hfound⟩ := hmatch.exists_first 0
      rw [first_number hwhole.head_isDigit, number_second_point 0 c
        (fun d hd => hwhole.digits d (List.mem_cons_of_mem _ hd)) hfraction] at hfound
      cases hfound

theorem refused_of_number (hc : c.isDigit) (h : Lexeme.number offset c cs = .error e) :
    Refused offset .secondPoint (c :: cs) e := by
  obtain ⟨whole, fraction, rest, rfl, hwhole, hfraction⟩ := exists_second_point h
  rw [number_second_point offset c hwhole hfraction] at h
  cases h
  have hdigits : Decimal.IsWhole (c :: whole) :=
    ⟨List.cons_ne_nil _ _, List.forall_mem_cons.mpr ⟨hc, hwhole⟩⟩
  obtain ⟨text, hnumber⟩ := munches_before_point hdigits hfraction rest
  have hrefused : Refused offset .secondPoint _ _ := .secondPoint hnumber
  simpa using hrefused

theorem refused_of_string (h : Lexeme.string offset cs = .error e) :
    Refused offset .openString ('"' :: cs) e := by
  unfold Lexeme.string at h
  split at h
  · cases h
  next hopen =>
  rw [closedAfter?_eq_none] at hopen
  split at h
  · next hescape =>
    cases h
    rw [← last_byte]
    exact .danglingEscape hopen ((endsInEscape_iff_odd cs).mp hescape)
  · next hescape =>
    cases h
    exact .unterminated hopen (mt (endsInEscape_iff_odd cs).mpr hescape)

/-- Where there is no lexeme, the text is refused for one of the reasons. -/
theorem exists_refused_of_first (h : Lexeme.first offset c cs = .error e) :
    ∃ why, Refused offset why (c :: cs) e := by
  obtain ⟨hdigit, hnumber⟩ | ⟨rfl, hstring⟩ | ⟨rfl, hblank, hcomment, hfirst⟩ :=
    first_error_cases h
  · exact ⟨_, refused_of_number hdigit hnumber⟩
  · exact ⟨_, refused_of_string hstring⟩
  · refine ⟨_, .stray hblank hcomment fun kind lexeme text hmatch => ?_⟩
    obtain ⟨found, hfound⟩ := hmatch.exists_first 0
    rw [hfirst] at hfound
    cases hfound

/-- Where the text is refused there is no lexeme, whatever the reason is. -/
theorem Refused.first {why : Reason} (h : Refused offset why (c :: cs) e) :
    Lexeme.first offset c cs = .error e := by
  generalize htext : c :: cs = rest at h
  cases h with
  | danglingEscape hopen hodd =>
    cases htext
    rw [first_quote, Lexeme.string, closedAfter?_eq_none.mpr hopen, last_byte]
    exact if_pos ((endsInEscape_iff_odd cs).mpr hodd)
  | unterminated hopen heven =>
    cases htext
    rw [first_quote, Lexeme.string, closedAfter?_eq_none.mpr hopen]
    exact if_neg (mt (endsInEscape_iff_odd cs).mp heven)
  | secondPoint hnumber =>
    cases hnumber.isMatch with
    | float hpointed =>
      obtain ⟨whole, fraction, hwhole, hfraction, rfl⟩ := hpointed
      obtain ⟨d, ds, rfl⟩ := List.exists_cons_of_ne_nil hwhole.nonempty
      rw [List.append_assoc, List.cons_append, List.cons_append] at htext
      cases htext
      rw [first_number hwhole.head_isDigit]
      exact number_second_point offset c (fun d hd => hwhole.digits d (List.mem_cons_of_mem _ hd))
        hfraction _
    | mark h => cases h
  | stray hblank hcomment hnone =>
    cases htext
    cases hfirst : Lexeme.first offset c cs with
    | ok found =>
      obtain ⟨part, rest, rfl, hpart⟩ | ⟨kind, text, tail, rest, rfl, hlexeme⟩ := first_cases hfirst
      · cases hpart with
        | blank hc => rw [hblank] at hc; cases hc
        | comment => exact absurd rfl hcomment
      · exact absurd hlexeme.isMatch (hnone _ _ _)
    | error e =>
      obtain ⟨hdigit, -⟩ | ⟨rfl, -⟩ | ⟨rfl, -⟩ := first_error_cases hfirst
      · exact absurd (.integer ⟨List.cons_ne_nil c [], List.forall_mem_singleton.mpr hdigit⟩)
          (hnone _ _ _)
      · exact absurd (.string .nil) (hnone _ _ _)
      · rfl

/-! ## A second look -/

/-- What is found at a place where no pattern matches. -/
inductive Finding where
  | fault (e : LexError)
  /-- There is no character that could be refused. -/
  | endOfText (offset : Nat)
  deriving Repr, DecidableEq

/-- A second look at the characters at `offset`, where no pattern matches: a string is opened there, or
the character begins nothing, unless the text is at its end. -/
def lookAgain (offset : Nat) : List Char → Finding
  | [] => .endOfText offset
  | '"' :: body =>
    .fault <|
      if endsInEscape body then .danglingEscape (offset + byteLength body)
      else .unterminatedString offset
  | c :: _ => .fault (.unexpectedCharacter c offset)

/-- The second look agrees with the first one. Only a second point is found without it. -/
theorem lookAgain_of_first (h : Lexeme.first offset c cs = .error e) :
    (∃ n, e = .secondDecimalPoint n) ∨ lookAgain offset (c :: cs) = .fault e := by
  obtain ⟨-, hnumber⟩ | ⟨rfl, hstring⟩ | ⟨rfl, -, -, hfirst⟩ := first_error_cases h
  · obtain ⟨whole, fraction, rest, rfl, hwhole, hfraction⟩ := exists_second_point hnumber
    rw [number_second_point offset c hwhole hfraction] at hnumber
    cases hnumber
    exact .inl ⟨_, rfl⟩
  · refine .inr ?_
    unfold Lexeme.string at hstring
    split at hstring
    · cases hstring
    split at hstring
    all_goals
      next hescape =>
        cases hstring
        simp [lookAgain, hescape]
  · refine .inr ?_
    have hquote : c ≠ '"' := by
      rintro rfl
      have hempty := hfirst 0 ['"']
      cases hempty
    rw [lookAgain]
    simpa using hquote

/-! ## Longer texts -/

/-- Whatever stands behind a second point or a stray character, it is refused. -/
theorem first_append (h : Lexeme.first offset c cs = .error e)
    (hlasting : (∃ d n, e = .unexpectedCharacter d n) ∨ ∃ n, e = .secondDecimalPoint n)
    (more : List Char) : Lexeme.first offset c (cs ++ more) = .error e := by
  obtain ⟨hdigit, hnumber⟩ | ⟨rfl, hstring⟩ | ⟨rfl, -, -, hfirst⟩ := first_error_cases h
  · obtain ⟨whole, fraction, rest, rfl, hwhole, hfraction⟩ := exists_second_point hnumber
    rw [number_second_point offset c hwhole hfraction] at hnumber
    rw [first_number hdigit, List.append_assoc, List.cons_append, List.append_assoc,
      List.cons_append, number_second_point offset c hwhole hfraction]
    exact hnumber
  · -- An open string has a fault of another kind.
    unfold Lexeme.string at hstring
    split at hstring
    · cases hstring
    split at hstring <;> cases hstring <;> simp at hlasting
  · exact hfirst offset (cs ++ more)

theorem scan_append_eq_error (h : scan offset cs = .error e)
    (hlasting : (∃ d n, e = .unexpectedCharacter d n) ∨ ∃ n, e = .secondDecimalPoint n)
    (more : List Char) : scan offset (cs ++ more) = .error e := by
  obtain ⟨before, c, tail, ts, rfl, hsplits, hfault⟩ := exists_of_scan_eq_error h
  have hsplits' : SplitsBefore (c :: (tail ++ more)) offset before ts :=
    hsplits.of_head fun _ hc => hc
  rw [List.append_assoc, List.cons_append, hsplits'.scan, scan, first_append hfault hlasting more]
  rfl

/-- A text is refused at a place before which it is a list of tokens. There stands an open string, a float
before a point, or a character that begins nothing, only one of them, with the fault that it has. It is
never the end of the text. More text behind a second point or a stray character makes no difference. -/
theorem ofText_eq_error {source : String} (h : ofText source = .error e) :
    (∃ before rest : String, source = before ++ rest ∧ (∃ ts, ofText before = .ok ts) ∧
      (∃ why, ∀ other e', Refused before.utf8ByteSize other rest.toList e' ↔
        other = why ∧ e' = e) ∧
      ((∃ n, e = .secondDecimalPoint n) ∨
        lookAgain before.utf8ByteSize rest.toList = .fault e)) ∧
    ((∃ c n, e = .unexpectedCharacter c n) ∨ (∃ n, e = .secondDecimalPoint n) →
      ∀ more, ofText (source ++ more) = .error e) := by
  constructor
  · obtain ⟨before, c, tail, ts, htext, hsplits, hfault⟩ := exists_of_scan_eq_error h
    have hplace : 0 + byteLength before = (String.ofList before).utf8ByteSize := by
      rw [← byteLength_toList, String.toList_ofList, Nat.zero_add]
    rw [hplace] at hfault
    obtain ⟨why, hwhy⟩ := exists_refused_of_first hfault
    have hbefore : ofText (String.ofList before) = .ok (ts ++ [atEnd (0 + byteLength before)]) := by
      rw [ofText, String.toList_ofList]
      exact hsplits.splits.scan
    refine ⟨.ofList before, .ofList (c :: tail), ?_, ⟨_, hbefore⟩, ⟨why, fun other e' => ?_⟩, ?_⟩
    · rw [← String.ofList_append, ← htext, String.ofList_toList]
    · rw [String.toList_ofList]
      constructor
      · intro hother
        rw [hother.reason_eq, hwhy.reason_eq]
        exact ⟨rfl, Except.error.inj (hother.first.symm.trans hfault)⟩
      · rintro ⟨rfl, rfl⟩
        exact hwhy
    · rw [String.toList_ofList]
      exact lookAgain_of_first hfault
  · intro hlasting more
    rw [ofText, String.toList_append]
    exact scan_append_eq_error h hlasting more.toList

/-- A comment that holds a quote, then a float before a point, then a character that begins nothing. -/
theorem ofText_second_point_behind_comment :
    ofText "# \"\nx = 1.25.é" = .error (.secondDecimalPoint 12) ∧
      ∀ more, ofText ("# \"\nx = 1.25.é" ++ more) = .error (.secondDecimalPoint 12) := by
  have h : ofText "# \"\nx = 1.25.é" = .error (.secondDecimalPoint 12) := by decide +kernel
  exact ⟨h, (ofText_eq_error h).2 (.inr ⟨12, rfl⟩)⟩

end Scriptlet.Token
