-- SUMMARY: What stands before a token that was not expected is the beginning of a sentence, with it of none.
import Scriptlet.Proofs.Parse.Lines
import Scriptlet.Proofs.Parse.Sentences
import Scriptlet.Proofs.Parse.Words

/-!
# The correct prefix property

The tokens before one that was not expected are the beginning of a sentence of the
grammar. Together with that token they are the beginning of none, and whatever
follows it, the fault stays the same.
-/
namespace Scriptlet

open Grammar
open Scriptlet.Action
open Terminal (mark)

/-- The fault is that this token was found where something else was expected. -/
def ParseError.ReportedAt (t : Token) : ParseError → Prop
  | .unexpectedToken _ found offset =>
    t.kind ≠ .endOfInput ∧ found = t.kind ∧ offset = t.start
  | .unexpectedEnd _ offset => t.kind = .endOfInput ∧ offset = t.start
  | _ => False

/-- Literals are in range and parameters in order, whatever the height and nesting are. -/
structure Grammar.Derivation.Proper (d : Derivation) : Prop where
  usual : ∀ t ∈ d.yield, t.Usual
  params : ∀ f, .func f ∈ d.decls → ParamsOrdered f.params

/-! ## Places of tokens -/

namespace Token

/-- A token with this terminal. -/
def ofTerminal (t : Terminal) : Token := ⟨t.kind, t.text, 0, 0⟩

theorem map_terminal_ofTerminal (ts : List Terminal) :
    (ts.map ofTerminal).map terminal = ts := by
  rw [List.map_map]
  exact List.map_id ts

/-- No two tokens of a text begin at the same place. -/
theorem pairwise_start_lt {text : String} {ts : List Token} (h : ofText text = .ok ts) :
    ts.Pairwise fun t u => t.start < u.start := by
  obtain ⟨init, rfl, hsplits⟩ := scan_eq_ok_iff_splits.mp h
  have htiling : Tiling ([] ++ text.toList) 0 init := hsplits.tiling rfl
  refine List.pairwise_append.mpr ⟨?_, List.pairwise_singleton _ _, fun t ht u hu => ?_⟩
  · refine htiling.ordered.imp_of_mem fun ht _ hle => ?_
    exact Nat.lt_of_lt_of_le (htiling.inBounds _ ht).2.1 hle
  · rw [List.mem_singleton.mp hu]
    obtain ⟨-, hlt, hle⟩ := htiling.inBounds t ht
    exact Nat.lt_of_lt_of_le hlt (hle.trans (Nat.le_add_left _ _))

/-- A token of a text is told from the others by where it begins. -/
theorem index_inj_of_start {text : String} {ts : List Token} (h : ofText text = .ok ts) {j k : Nat}
    {t u : Token} (ht : ts[j]? = some t) (hu : ts[k]? = some u) (hstart : t.start = u.start) :
    j = k := by
  obtain ⟨hj, rfl⟩ := List.getElem?_eq_some_iff.mp ht
  obtain ⟨hk, rfl⟩ := List.getElem?_eq_some_iff.mp hu
  have hordered := List.pairwise_iff_getElem.mp (pairwise_start_lt h)
  obtain hlt | heq | hlt := Nat.lt_trichotomy j k
  · exact absurd hstart (Nat.ne_of_lt (hordered j k hj hk hlt))
  · exact heq
  · exact absurd hstart.symm (Nat.ne_of_lt (hordered k j hk hj hlt))

end Token

theorem Cursor.reportedAt_unexpected (c : Cursor) (expected : Expected) :
    (c.unexpected expected).ReportedAt c.current := by
  rw [Cursor.unexpected]
  split
  · exact ⟨‹_›, rfl⟩
  · exact ⟨‹_›, rfl, rfl⟩

theorem ParseError.ReportedAt.start_eq {e : ParseError} {t u : Token} (ht : e.ReportedAt t)
    (hu : e.ReportedAt u) : t.start = u.start := by
  cases e with
  | unexpectedToken => exact ht.2.2.symm.trans hu.2.2
  | unexpectedEnd => exact ht.2.symm.trans hu.2
  | _ => cases ht

namespace Program

variable {ts seen after : List Token} {e : ParseError} {c : Cursor}

theorem ofTokens_eq_error :
    ofTokens ts = .error e ↔ ∃ c, Parse.program.runOn (Cursor.ofTokens ts) = (.error e, c) := by
  rw [ofTokens]
  rcases Parse.program.runOn (Cursor.ofTokens ts) with ⟨r, c⟩
  simp

/-! ## What stands behind a fault -/

/-- What stands behind the token where a fault was found has no part in it. -/
theorem ofTokens_of_seen (h : Parse.program.runOn (Cursor.ofTokens (seen ++ after)) = (.error e, c))
    (hstop : after.length < c.rest.length) (after' : List Token) :
    ofTokens (seen ++ after') = .error e := by
  have hseen : seen ≠ [] := by
    rintro rfl
    have honward := Parse.moves_program (Cursor.ofTokens ([] ++ after))
    rw [h] at honward
    exact absurd honward.rest.length_le (Nat.not_le_of_lt hstop)
  have halike := Cursor.alike_ofTokens hseen after after'
  have hsame := Parse.inStep_program.same _ _ halike (by rw [h]; exact hstop)
  rw [h] at hsame
  rw [ofTokens]
  generalize Parse.program.runOn (Cursor.ofTokens (seen ++ after')) = r at hsame
  cases hsame
  rw [ParseError.shift_zero]

/-! ## What stands before a fault -/

/-- What was read before something else was expected is the beginning of a sentence. -/
theorem exists_sentence {init : List Token} {stop : Nat}
    (hinit : ∀ t ∈ init, t.kind ≠ .endOfInput ∧ t.terminal.Lexed)
    (h : Parse.program.runOn (Cursor.ofTokens (init ++ [Token.atEnd stop])) = (.error e, c))
    (he : e.IsUnexpected) :
    (∃ expected, e = c.unexpected expected) ∧ ∃ before,
      init ++ [Token.atEnd stop] = before ++ c.rest ∧ c.rest ≠ [] ∧
        ∃ (d : Derivation) (us : List Token), d.Proper ∧ d.Spells (before ++ us) := by
  have hlexed : (Cursor.ofTokens (init ++ [Token.atEnd stop])).Lexed := Cursor.lexed_ofTokens hinit
  have hout := Parse.readsWord_program.goesTo _ hlexed
  have honward := Parse.moves_program (Cursor.ofTokens (init ++ [Token.atEnd stop]))
  rw [h] at hout honward
  obtain ⟨hexpected, read, hread, more, hmore, -, d, hyield, hparams⟩ := hout he
  obtain ⟨before, hbefore⟩ := honward.rest
  have hterminals : before.map Token.terminal = read := by
    have hrest := hread.terminals
    rw [Cursor.terminals, ← hbefore, List.map_append] at hrest
    exact List.append_cancel_right hrest
  refine ⟨hexpected, before, hbefore.symm, fun hnil => ?_, d,
    more.map Token.ofTerminal ++ [Token.atEnd 0], ⟨fun t ht => ?_, hparams⟩, ?_⟩
  · -- The end of input is not read.
    have hend : mark .endOfInput ∈ read := by
      rw [hnil, List.append_nil] at hbefore
      rw [← hterminals, hbefore]
      exact List.mem_map.mpr ⟨Token.atEnd stop, by simp [Cursor.ofTokens, Cursor.atIndex], rfl⟩
    exact (hread.readable _ hend).proper rfl
  · rw [← hyield] at ht
    obtain ht | ht := List.mem_append.mp ht
    · refine ⟨hread.readable t ht, hlexed.lexed t ?_⟩
      rw [hread.terminals]
      exact List.mem_append_left _ ht
    · exact hmore t ht
  · rw [Derivation.Spells, List.map_append, List.map_append, Token.map_terminal_ofTerminal,
      hterminals, ← List.append_assoc]
    exact congrArg (· ++ [mark .endOfInput]) hyield

/-- On a sentence nothing else is expected, though it may be above a limit. -/
theorem not_isUnexpected_of_spells {d : Derivation} (hd : d.Spells ts)
    (h : ofTokens ts = .error e) : ¬ e.IsUnexpected := by
  have harrives := Parse.leads_program d (Cursor.ofTokens ts) ⟨hd, hd.kind_final⟩
  obtain ⟨c, hrun⟩ := ofTokens_eq_error.mp h
  rw [hrun] at harrives
  exact harrives

/-! ## The token of a fault -/

/-- If something else was expected, the fault is told of one token of the text. The tokens before
it are the beginning of a sentence, and with that token they are the beginning of none. Every list
that begins with them and that token is refused with the same fault. -/
theorem ofTokens_eq_unexpected {text : String} (htext : Token.ofText text = .ok ts)
    (h : ofTokens ts = .error e) (he : e.IsUnexpected) :
    ∃ k, k < ts.length ∧ (∀ j t, ts[j]? = some t → (e.ReportedAt t ↔ j = k)) ∧
      (∃ (d : Derivation) (us : List Token), d.Proper ∧ d.Spells us ∧ us.take k = ts.take k) ∧
      ∀ us : List Token, us.take (k + 1) = ts.take (k + 1) →
        ofTokens us = .error e ∧ ∀ d : Derivation, ¬ d.Spells us := by
  obtain ⟨init, stop, rfl, hinit⟩ := Token.scan_shape htext
  obtain ⟨c, hrun⟩ := ofTokens_eq_error.mp h
  obtain ⟨⟨expected, rfl⟩, before, hbefore, hne, d, us, hd, hspells⟩ :=
    exists_sentence hinit hrun he
  obtain ⟨t, after, hrest⟩ := List.exists_cons_of_ne_nil hne
  have hreported := c.reportedAt_unexpected expected
  rw [Cursor.current, hrest, List.head?_cons, Option.getD_some] at hreported
  rw [hrest] at hbefore
  rw [hbefore] at htext hrun ⊢
  have hk : (before ++ t :: after)[before.length]? = some t := by simp
  refine ⟨before.length, by simp, fun j u hu => ⟨fun hju => ?_, ?_⟩,
    ⟨d, before ++ us, hd, hspells, by simp⟩, fun us hus => ?_⟩
  · exact Token.index_inj_of_start htext hu hk (hju.start_eq hreported)
  · rintro rfl
    rw [hk] at hu
    cases hu
    exact hreported
  · have hsplit : before ++ t :: after = (before ++ [t]) ++ after := by simp
    have htake : (before ++ t :: after).take (before.length + 1) = before ++ [t] := by
      simp [List.take_append]
    rw [hsplit] at hrun
    have hrefused := ofTokens_of_seen hrun (by rw [hrest]; exact Nat.lt_succ_self _)
      (us.drop (before.length + 1))
    rw [← htake, ← hus, List.take_append_drop] at hrefused
    exact ⟨hrefused, fun d hd => not_isUnexpected_of_spells hd hrefused he⟩

/-- An operand is missing before a semicolon, and at the end of a text. -/
theorem unexpected_behind_sign :
    let seen : List Token := [⟨.varWord, none, 0, 3⟩, ⟨.identifier, some "x", 4, 5⟩,
      ⟨.equals, none, 6, 7⟩, ⟨.minus, none, 8, 9⟩]
    let semicolon : Token := ⟨.semicolon, none, 9, 10⟩
    let ofSemicolon : ParseError := .unexpectedToken .expression .semicolon 9
    let ofEnd : ParseError := .unexpectedEnd .expression 9
    Token.ofText "var x = -;" = .ok (seen ++ [semicolon, Token.atEnd 10]) ∧
      Token.ofText "var x = -" = .ok (seen ++ [Token.atEnd 9]) ∧
      (∃ (d : Derivation) (us : List Token), d.Proper ∧ d.Spells (seen ++ us)) ∧
      (∀ us, ofTokens (seen ++ semicolon :: us) = .error ofSemicolon) ∧
      (∀ us, ofTokens (seen ++ Token.atEnd 9 :: us) = .error ofEnd) ∧
      ∀ (d : Derivation) (us : List Token), ¬ d.Spells (seen ++ semicolon :: us) := by
  intro seen semicolon ofSemicolon ofEnd
  have htext : Token.ofText "var x = -;" = .ok (seen ++ [semicolon, Token.atEnd 10]) := by cbv
  have htext' : Token.ofText "var x = -" = .ok (seen ++ [Token.atEnd 9]) := by cbv
  obtain ⟨k, -, hk, ⟨d, us, hd, hspells, hseen⟩, hsame⟩ :=
    ofTokens_eq_unexpected htext (e := ofSemicolon) rfl trivial
  obtain ⟨k', -, hk', -, hsame'⟩ := ofTokens_eq_unexpected htext' (e := ofEnd) rfl trivial
  obtain rfl : 4 = k := (hk 4 semicolon rfl).mp ⟨by decide, rfl, rfl⟩
  obtain rfl : 4 = k' := (hk' 4 (Token.atEnd 9) rfl).mp ⟨rfl, rfl⟩
  have hsemicolon (us : List Token) := hsame (seen ++ semicolon :: us) rfl
  have hend (us : List Token) := hsame' (seen ++ Token.atEnd 9 :: us) rfl
  refine ⟨htext, htext', ⟨d, us.drop 4, hd, ?_⟩, fun us => (hsemicolon us).1,
    fun us => (hend us).1, fun d us => (hsemicolon us).2 d⟩
  rwa [← List.take_append_drop 4 us, hseen] at hspells

end Program

end Scriptlet
