-- SUMMARY: The tokens and the faults of a text stand at characters of it that are no blanks.
import Scriptlet.Proofs.Token.Tiling

/-!
# Where tokens and faults stand

A token begins with a character that is no blank, and a text that is no list of tokens is
refused at such a character. Only the end of input stands behind the last character.
-/
namespace Scriptlet.Token

open Text

variable {c : Char} {cs before lexeme rest : List Char} {offset n : Nat} {e : LexError}
  {kind : Kind} {text : Option String}

/-- The bytes before the position are whole characters of the text, and no blank stands behind them. -/
def InkAt (cs : List Char) (n : Nat) : Prop :=
  ∃ before rest, cs = before ++ rest ∧ byteLength before = n ∧ ∀ c ∈ rest.head?, isBlank c = false

theorem inkAt_end (cs : List Char) : InkAt cs (byteLength cs) :=
  ⟨cs, [], (List.append_nil cs).symm, rfl, nofun⟩

/-! ## Tokens -/

theorem Ends.head_ink (h : Ends kind text lexeme rest) : ∀ c ∈ lexeme.head?, isBlank c = false := by
  obtain ⟨c, cs, rfl, hfirst, -⟩ := h.first 0
  rintro _ ⟨⟩
  rw [Bool.eq_false_iff]
  intro hblank
  rw [Lexeme.first, if_pos hblank] at hfirst
  cases hfirst

/-- Numbers and names are written in one line. -/
theorem Matches.oneLine (h : Matches kind lexeme text)
    (hk : kind = .integer ∨ kind = .float ∨ kind = .identifier) :
    '\n' ∉ (text.getD "").toList := by
  have hdigits {cs : List Char} (hcs : ∀ d ∈ cs, d.isDigit) : '\n' ∉ cs :=
    fun hmem => nomatch hcs '\n' hmem
  cases h with
  | integer h => simpa using hdigits h.digits
  | float h =>
    obtain ⟨whole, fraction, hwhole, hfraction, rfl⟩ := h
    simpa using ⟨hdigits hwhole.digits, hdigits hfraction⟩
  | identifier h =>
    cases lexeme with
    | nil => cases h
    | cons c cs =>
      have hword : ∀ d ∈ c :: cs, isWordChar d :=
        List.forall_mem_cons.mpr ⟨by rw [isWordChar, h.1, Bool.true_or], h.2⟩
      rw [Option.getD_some, String.toList_ofList]
      exact fun hmem => nomatch hword '\n' hmem
  | string => simp at hk
  | mark => exact nofun

/-- What is known of the tokens of a text. -/
structure StandsIn (cs : List Char) (t : Token) : Prop where
  ink : InkAt cs t.start
  oneLine : t.kind = .integer ∨ t.kind = .float ∨ t.kind = .identifier →
    '\n' ∉ (t.text.getD "").toList

theorem standsIn_of_ofText {source : String} {ts : List Token} (h : ofText source = .ok ts) :
    ∀ t ∈ ts, t.StandsIn source.toList := by
  obtain ⟨us, rfl, hsplits⟩ := scan_eq_ok_iff_splits.mp h
  intro t ht
  obtain ht | ht := List.mem_append.mp ht
  · obtain ⟨lexeme, rest, ⟨before, htext, hstart, -⟩, hends⟩ := hsplits.exists_cut [] rfl t ht
    refine ⟨⟨before, lexeme ++ rest, htext, hstart.symm, fun c hc => ?_⟩, hends.isMatch.oneLine⟩
    obtain ⟨d, ds, hlexeme⟩ := List.exists_cons_of_ne_nil hends.isMatch.ne_nil
    refine hends.head_ink c ?_
    rw [hlexeme] at hc ⊢
    exact hc
  · rw [List.mem_singleton.mp ht]
    refine ⟨?_, nofun⟩
    rw [Nat.zero_add]
    exact inkAt_end _

/-! ## Faults -/

/-- At a character that is no blank, `offset` bytes behind the beginning of the text, stands a fault. -/
def FaultAt (offset : Nat) (cs : List Char) (e : LexError) : Prop :=
  ∃ before c rest, cs = before ++ c :: rest ∧ e.offset = offset + byteLength before ∧
    isBlank c = false

theorem FaultAt.append (h : FaultAt (offset + byteLength before) rest e) :
    FaultAt offset (before ++ rest) e := by
  obtain ⟨more, c, tail, rfl, hoffset, hc⟩ := h
  refine ⟨before ++ more, c, tail, by rw [List.append_assoc], ?_, hc⟩
  rw [hoffset, byteLength_append, Nat.add_assoc]

theorem exists_escape_of_endsInEscape (h : endsInEscape cs) : ∃ body, cs = body ++ ['\\'] := by
  fun_induction endsInEscape cs with
  | case1 => cases h
  | case2 => exact ⟨[], rfl⟩
  | case3 c cs ih =>
    obtain ⟨body, rfl⟩ := ih h
    exact ⟨'\\' :: c :: body, rfl⟩
  | case4 c cs hnil hescaped ih =>
    obtain ⟨body, rfl⟩ := ih h
    exact ⟨c :: body, rfl⟩

/-- The second point of a number stands behind the digits before it. -/
theorem faultAt_of_number (h : Lexeme.number offset c cs = .error e) : FaultAt offset (c :: cs) e := by
  obtain ⟨whole, fraction, rest, rfl, hwhole, hfraction⟩ := exists_second_point h
  rw [number_second_point offset c hwhole hfraction] at h
  cases h
  exact ⟨c :: (whole ++ '.' :: fraction), '.', rest, by simp, rfl, rfl⟩

theorem faultAt_of_string (h : Lexeme.string offset cs = .error e) : FaultAt offset ('"' :: cs) e := by
  unfold Lexeme.string at h
  split at h
  · cases h
  split at h
  · next hescape =>
    cases h
    obtain ⟨body, rfl⟩ := exists_escape_of_endsInEscape hescape
    refine ⟨'"' :: body, '\\', [], rfl, ?_, rfl⟩
    rw [LexError.offset, byteLength_append, byteLength_cons]
    rw [Nat.add_comm (byteLength body)]
    rfl
  · cases h
    exact ⟨[], '"', cs, rfl, rfl, rfl⟩

theorem faultAt_of_first (h : Lexeme.first offset c cs = .error e) : FaultAt offset (c :: cs) e := by
  obtain ⟨-, hnumber⟩ | ⟨rfl, hstring⟩ | ⟨rfl, hblank, -⟩ := first_error_cases h
  · exact faultAt_of_number hnumber
  · exact faultAt_of_string hstring
  · exact ⟨[], c, cs, rfl, rfl, hblank⟩

/-- A text that is no list of tokens is refused at a character that is no blank. -/
theorem faultAt_of_scan (h : scan offset cs = .error e) : FaultAt offset cs e := by
  obtain ⟨before, c, tail, ts, rfl, -, hfault⟩ := exists_of_scan_eq_error h
  exact (faultAt_of_first hfault).append

theorem inkAt_of_ofText {source : String} (h : ofText source = .error e) :
    InkAt source.toList e.offset := by
  obtain ⟨before, c, rest, htext, hoffset, hc⟩ := faultAt_of_scan h
  refine ⟨before, c :: rest, htext, by rw [hoffset, Nat.zero_add], ?_⟩
  rintro _ ⟨⟩
  exact hc

end Scriptlet.Token
