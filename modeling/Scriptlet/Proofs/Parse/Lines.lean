-- SUMMARY: A program may be continued in a new line: what follows is read, or refused, as it is on its own.
import Scriptlet.Proofs.Parse.Agreement
import Scriptlet.Proofs.Parse.InStep
import Scriptlet.Proofs.Token.Tiling

/-!
# Programs in lines

Nothing that was read of a program that is complete plays a part in reading what
follows it in a new line. So two texts are read as the program of both if the first
is a program, and a fault of the second is found where it stands in the whole.
-/
namespace Scriptlet

open Grammar
open Scriptlet.Action
open Cursor (Alike)

/-- The fault, if `n` more bytes stood before the text. -/
def SourceError.shift (n : Nat) : SourceError → SourceError
  | .lex e => .lex (e.shift n)
  | .parse e => .parse (e.shift n)

/-! ## Loops -/

namespace Parse

variable {c : Cursor}

/-- How many rounds are left does not matter, if there are enough. -/
theorem runOn_decls_rounds {rounds rounds' : List Token} (hc : c.Lexed)
    (hr : c.rest.length < rounds.length) (hr' : c.rest.length < rounds'.length) :
    (decls rounds).runOn c = (decls rounds').runOn c := by
  induction rounds generalizing rounds' c with
  | nil => cases hr
  | cons token rounds ih =>
    cases rounds' with
    | nil => cases hr'
    | cons token' rounds' =>
      by_cases hend : c.current.kind = .endOfInput
      · simp only [decls, runOn_bind_ok (runOn_current c), if_pos hend]
      · rcases hrun : decl.runOn c with ⟨e | d, c₁⟩
        · simp only [decls, runOn_bind_ok (runOn_current c), if_neg hend, runOn_bind_error hrun]
        · obtain ⟨g, hread, -⟩ := reads_decl hc hrun
          rw [runOn_decls_of_ok hend hrun, runOn_decls_of_ok hend hrun, runOn_map, runOn_map,
            ih (hc.of_reads hread) (hread.rounds_lt g.yield_ne_nil hr)
              (hread.rounds_lt g.yield_ne_nil hr')]

end Parse

namespace Program

variable {stop : Nat} {ts init more : List Token} {p : Program}

theorem ofText_eq_mapError {text : String} (h : Token.ofText text = .ok ts) :
    ofText text = (ofTokens ts).mapError .parse := by
  rw [ofText, h]
  dsimp only
  cases ofTokens ts <;> rfl

theorem ofTokens_eq_map (ts : List Token) :
    ofTokens ts = ((Parse.decls ((Cursor.ofTokens ts).final :: (Cursor.ofTokens ts).rest)).runOn
      (Cursor.ofTokens ts)).1.map Program.mk := by
  rw [ofTokens, Parse.program, runOn_bind_ok (Parse.runOn_rounds _), runOn_bind]
  rcases Parse.decls _ |>.runOn (Cursor.ofTokens ts) with ⟨_ | ds, c⟩ <;> rfl

/-- The declarations of a program are read, and then what stands behind them. -/
theorem ofTokens_append_eq (hinit : ∀ t ∈ init, t.kind ≠ .endOfInput ∧ t.terminal.Lexed)
    (h : ofTokens (init ++ [Token.atEnd stop]) = .ok p)
    (hmore : ∀ t ∈ more, t.kind ≠ .endOfInput ∧ t.terminal.Lexed) (stop' : Nat) :
    ∃ c : Cursor, c.rest = more ++ [Token.atEnd stop'] ∧ c.final = Token.atEnd stop' ∧ c.depth = 0 ∧
      ofTokens (init ++ (more ++ [Token.atEnd stop'])) =
        ((Parse.decls (c.final :: c.rest)).runOn c).1.map fun ds => ⟨p.decls ++ ds⟩ := by
  obtain ⟨d, hspells, rfl, hadm⟩ := exists_derivation hinit h
  have hyield : init.map Token.terminal = d.decls.flatMap Declaration.yield :=
    hspells.terminals_init
  have hlexed : (Cursor.ofTokens (init ++ more ++ [Token.atEnd stop'])).Lexed :=
    Cursor.lexed_ofTokens (List.forall_mem_append.mpr ⟨hinit, hmore⟩)
  rw [List.append_assoc] at hlexed
  rw [ofTokens_eq_map]
  generalize hts : more ++ [Token.atEnd stop'] = ts at hlexed ⊢
  have hbefore : (Cursor.ofTokens (init ++ ts)).Before (d.decls.flatMap Declaration.yield)
      (ts.map Token.terminal) := by
    refine ⟨?_, hlexed.final, hadm.inRange, fun t ht => ?_⟩
    · rw [← hyield, ← List.map_append]
      rfl
    · rw [← hyield] at ht
      obtain ⟨token, hmem, rfl⟩ := List.mem_map.mp ht
      exact (hinit token hmem).2
  obtain ⟨c, rounds, hread, honward, hr, hrun⟩ :=
    Parse.goesOn_decls (_ :: _) hbefore rfl (Nat.lt_succ_self _) hadm
  have hrest : c.rest = ts := by
    have hlength : c.rest.length = ts.length := by
      simpa [Cursor.terminals] using congrArg List.length (hbefore.done hread).terminals
    exact (List.suffix_of_suffix_length_le honward.rest (List.suffix_append init ts)
      hlength.le).eq_of_length hlength
  refine ⟨c, hrest, ?_, hread.depth, ?_⟩
  · rw [hread.final, Cursor.ofTokens, Cursor.atIndex, ← hts, ← List.append_assoc]
    simp
  · have henough : c.rest.length < (c.final :: c.rest).length := Nat.lt_succ_self _
    rw [hrun, runOn_map, Parse.runOn_decls_rounds (hlexed.of_reads hread) hr henough]
    cases ((Parse.decls (c.final :: c.rest)).runOn c).1 <;> rfl

/-- Behind the declarations of a program, other tokens are read as they are on their own. -/
theorem ofTokens_append (hinit : ∀ t ∈ init, t.kind ≠ .endOfInput ∧ t.terminal.Lexed)
    (h : ofTokens (init ++ [Token.atEnd stop]) = .ok p)
    (hmore : ∀ t ∈ more, t.kind ≠ .endOfInput ∧ t.terminal.Lexed) (stop' n : Nat) :
    ofTokens (init ++ (more ++ [Token.atEnd stop']).map (Token.shift n)) =
      ((ofTokens (more ++ [Token.atEnd stop'])).map fun q =>
        ⟨p.decls ++ q.decls⟩).mapError (ParseError.shift n) := by
  have hshifted : ∀ t ∈ more.map (Token.shift n), t.kind ≠ .endOfInput ∧ t.terminal.Lexed :=
    List.forall_mem_map.mpr hmore
  rw [List.map_append]
  obtain ⟨c', hrest, hfinal, hdepth, hrun⟩ := ofTokens_append_eq hinit h hshifted (stop' + n)
  refine hrun.trans ?_
  rw [ofTokens_eq_map]
  generalize hc : Cursor.ofTokens (more ++ [Token.atEnd stop']) = c
  have halike : Alike n none ⟨0, false⟩ c c' := by
    refine ⟨.all ?_ ?_, ?_, nofun, nofun⟩
    · rw [hrest, ← hc, Cursor.ofTokens, Cursor.atIndex, List.drop_zero, List.map_append]
      rfl
    · rw [hfinal, ← hc, Cursor.ofTokens, Cursor.atIndex, List.getLast?_concat]
      rfl
    · rw [hdepth, ← hc]
      rfl
  have hrounds : Parse.Rounds 0 (c.final :: c.rest) (c'.final :: c'.rest) none := by
    rw [Parse.Rounds, hrest, ← hc]
    simp [Cursor.ofTokens, Cursor.atIndex]
  have hsame := (Parse.inStep_decls hrounds).same c c' halike trivial
  generalize (Parse.decls (c.final :: c.rest)).runOn c = r,
    (Parse.decls (c'.final :: c'.rest)).runOn c' = r' at hsame
  cases hsame <;> rfl

/-- A text that is scanned as the tokens of a program and those of another text is the program of
both; or the fault of the other text is found, where it stands in the whole. -/
theorem ofText_of_scan {whole b : String} {n : Nat}
    (hinit : ∀ t ∈ init, t.kind ≠ .endOfInput ∧ t.terminal.Lexed)
    (h : ofTokens (init ++ [Token.atEnd stop]) = .ok p)
    (htext : Token.ofText whole = (((Token.ofText b).map (List.map (Token.shift n))).mapError
      (Token.LexError.shift n)).map (init ++ ·)) :
    ofText whole =
      ((ofText b).map fun q => ⟨p.decls ++ q.decls⟩).mapError (SourceError.shift n) := by
  cases hb : Token.ofText b with
  | error e =>
    rw [hb] at htext
    rw [ofText, ofText, htext, hb]
    rfl
  | ok ts =>
    obtain ⟨more, stop', rfl, hmore⟩ := Token.scan_shape hb
    rw [hb] at htext
    rw [ofText_eq_mapError htext, ofText_eq_mapError hb, ofTokens_append hinit h hmore stop']
    cases ofTokens (more ++ [Token.atEnd stop']) <;> rfl

/-- If a text is a program, that text and another one in the lines behind it are the program of
both; or the fault of the other text is found, where it stands in the whole. -/
theorem ofText_append_line {a : String} (ha : ofText a = .ok p) (b : String) :
    ofText (a ++ "\n" ++ b) =
      ((ofText b).map fun q => ⟨p.decls ++ q.decls⟩).mapError
        (SourceError.shift (a.utf8ByteSize + 1)) := by
  obtain ⟨ts, hscan, hparse⟩ := ofText_eq_ok.mp ha
  obtain ⟨init, rfl, hsplits⟩ := Token.scan_eq_ok_iff_splits.mp hscan
  refine ofText_of_scan hsplits.lexed hparse ?_
  have hline := Token.scan_append_line hsplits b.toList
  rw [Text.byteLength_toList, Nat.zero_add, ← Nat.zero_add (a.utf8ByteSize + 1),
    Token.scan_shift] at hline
  rw [Token.ofText, String.toList_append, String.toList_append, List.append_assoc]
  exact hline

/-- If a text is a program and ends a line, that text and another one behind it are the program of
both; or the fault of the other text is found, where it stands in the whole. -/
theorem ofText_append_of_end {a : String} (ha : ofText a = .ok p)
    (hend : ∀ c ∈ a.toList.getLast?, c = '\n') (b : String) :
    ofText (a ++ b) =
      ((ofText b).map fun q => ⟨p.decls ++ q.decls⟩).mapError
        (SourceError.shift a.utf8ByteSize) := by
  obtain ⟨ts, hscan, hparse⟩ := ofText_eq_ok.mp ha
  obtain ⟨init, rfl, hsplits⟩ := Token.scan_eq_ok_iff_splits.mp hscan
  refine ofText_of_scan hsplits.lexed hparse ?_
  have hline := Token.scan_append_of_end hsplits hend b.toList
  rw [Text.byteLength_toList, Token.scan_shift] at hline
  rw [Token.ofText, String.toList_append]
  exact hline

/-- Behind a line that ends in a comment, a program and two texts that are none. -/
theorem ofText_append_line_comment :
    let a := "var x; # one"
    let x : Decl := .var "x" none
    ofText a = .ok ⟨[x]⟩ ∧
      ofText (a ++ "\n" ++ "var y;") = .ok ⟨[x, .var "y" none]⟩ ∧
      ofText (a ++ "\n" ++ "var 1") =
        .error (.parse (.unexpectedToken (.kind .identifier) .integer 17)) ∧
      ofText (a ++ "\n" ++ "é") = .error (.lex (.unexpectedCharacter 'é' 13)) := by
  intro a x
  have ha : ofText a = .ok ⟨[x]⟩ := by cbv
  have hy : ofText "var y;" = .ok ⟨[.var "y" none]⟩ := by cbv
  have hparse : ofText "var 1" =
    .error (.parse (.unexpectedToken (.kind .identifier) .integer 4)) := by cbv
  have hlex : ofText "é" = .error (.lex (.unexpectedCharacter 'é' 0)) := by cbv
  refine ⟨ha, ?_, ?_, ?_⟩
  · rw [ofText_append_line ha, hy]
    rfl
  · rw [ofText_append_line ha, hparse]
    rfl
  · rw [ofText_append_line ha, hlex]
    rfl

end Program

end Scriptlet
