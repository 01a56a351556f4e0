-- SUMMARY: A text is read as a program exactly if its tokens are a sentence of the grammar, and then in one way.
import Scriptlet.Proofs.Grammar.Unambiguous
import Scriptlet.Proofs.Parse.CompleteProgram
import Scriptlet.Proofs.Parse.SoundProgram

/-!
# Programs are the sentences of the grammar

Both directions for whole lists of tokens, and together with the grammar being
unambiguous what the parser decides and returns.
-/
namespace Scriptlet

open Grammar
open Scriptlet.Action
open Terminal (mark word)

namespace Grammar.Derivation

/-- The tokens are those of the derivation, and the end of input. -/
def Spells (d : Derivation) (ts : List Token) : Prop :=
  ts.map Token.terminal = d.yield ++ [mark .endOfInput]

theorem Spells.terminals_init {d : Derivation} {init : List Token} {stop : Nat}
    (h : d.Spells (init ++ [Token.atEnd stop])) : init.map Token.terminal = d.yield := by
  rw [Spells, List.map_append] at h
  exact List.append_cancel_right h

theorem Spells.kind_final {d : Derivation} {ts : List Token} (h : d.Spells ts) :
    (Cursor.ofTokens ts).final.kind = .endOfInput := by
  have hlast := congrArg List.getLast? h
  rw [List.getLast?_map, List.getLast?_concat, Option.map_eq_some_iff] at hlast
  obtain ⟨t, ht, hterminal⟩ := hlast
  rw [Cursor.ofTokens, Cursor.atIndex, ht]
  exact congrArg Terminal.kind hterminal

/-- Literals are in range, parameters in order, and the limits are kept. -/
def Admissible (d : Derivation) : Prop := ∀ g ∈ d.decls, g.Admissible

theorem Admissible.inRange {d : Derivation} (h : d.Admissible) : ∀ t ∈ d.yield, t.InRange := by
  intro t ht
  obtain ⟨g, hg, ht⟩ := List.mem_flatMap.mp ht
  exact (h g hg).inRange t ht

end Grammar.Derivation

/-- The cursor before the tokens of a text. -/
theorem Cursor.lexed_ofTokens {init : List Token} {stop : Nat}
    (hinit : ∀ t ∈ init, t.kind ≠ .endOfInput ∧ t.terminal.Lexed) :
    (Cursor.ofTokens (init ++ [Token.atEnd stop])).Lexed := by
  constructor
  · simp [Cursor.ofTokens, Cursor.atIndex, Token.atEnd]
  · intro t ht
    obtain ⟨token, hmem, rfl⟩ := List.mem_map.mp ht
    obtain hmem | hmem := List.mem_append.mp hmem
    · exact (hinit token hmem).2
    · rw [List.mem_singleton.mp hmem]
      exact rfl

namespace Program

variable {ts : List Token} {p : Program}

theorem ofTokens_eq_ok :
    ofTokens ts = .ok p ↔
      ∃ c, (Parse.decls ((Cursor.ofTokens ts).final :: (Cursor.ofTokens ts).rest)).runOn
        (Cursor.ofTokens ts) = (.ok p.decls, c) := by
  rw [ofTokens, Parse.program, runOn_bind_ok (Parse.runOn_rounds _), runOn_bind]
  rcases Parse.decls _ |>.runOn (Cursor.ofTokens ts) with ⟨_ | ds, c⟩
  · simp
  · rcases p with ⟨ds'⟩
    simp

/-- A text is read if it is scanned and its tokens are read. -/
theorem ofText_eq_ok {text : String} :
    ofText text = .ok p ↔ ∃ ts, Token.ofText text = .ok ts ∧ ofTokens ts = .ok p := by
  unfold ofText
  cases Token.ofText text with
  | error e => simp
  | ok ts => cases h : ofTokens ts <;> simp [h]

/-- A list whose only end of input is its last terminal is read up to there. -/
theorem eq_singleton_of_kind {init read rest : List Terminal}
    (hinit : ∀ t ∈ init, t.kind ≠ .endOfInput) (hread : ∀ t ∈ read, t.kind ≠ .endOfInput)
    (hrest : ∀ t ts, rest = t :: ts → t.kind = .endOfInput)
    (h : init ++ [mark .endOfInput] = read ++ rest) : rest = [mark .endOfInput] := by
  cases rest with
  | nil =>
    have hmem : mark .endOfInput ∈ read := by
      rw [← List.append_nil read, ← h]
      simp
    exact absurd rfl (hread _ hmem)
  | cons t ts =>
    obtain rfl | ⟨ts, u, rfl⟩ := List.eq_nil_or_concat ts
    · obtain ⟨-, heq⟩ := List.append_inj' h rfl
      exact heq.symm
    · rw [List.concat_eq_append, ← List.cons_append, ← List.append_assoc] at h
      obtain ⟨rfl, -⟩ := List.append_inj' h rfl
      exact absurd (hrest t _ rfl) (hinit t (by simp))

/-- What is read has a derivation. -/
theorem exists_derivation {init : List Token} {stop : Nat}
    (hinit : ∀ t ∈ init, t.kind ≠ .endOfInput ∧ t.terminal.Lexed)
    (h : ofTokens (init ++ [Token.atEnd stop]) = .ok p) :
    ∃ d : Derivation, d.Spells (init ++ [Token.atEnd stop]) ∧ d.tree = p ∧ d.Admissible := by
  obtain ⟨c, hrun⟩ := ofTokens_eq_ok.mp h
  obtain ⟨gs, hread, hend, htree, hadm⟩ := Parse.reads_decls (Cursor.lexed_ofTokens hinit) hrun
  have hinit' : ∀ t ∈ init.map Token.terminal, t.kind ≠ .endOfInput := by
    intro t ht
    obtain ⟨token, hmem, rfl⟩ := List.mem_map.mp ht
    exact (hinit token hmem).1
  have hterminals : init.map Token.terminal ++ [mark .endOfInput] =
      gs.flatMap Declaration.yield ++ c.terminals := by
    rw [← hread.terminals]
    simp [Cursor.terminals, Cursor.ofTokens, Cursor.atIndex, Token.terminal, Token.atEnd]
  have hrest := eq_singleton_of_kind hinit' (fun t ht => (hread.readable t ht).proper)
    (fun t ts ht => (Cursor.kind_current ht).symm.trans hend) hterminals
  refine ⟨⟨gs⟩, ?_, by rw [Derivation.tree, htree], hadm⟩
  rw [Derivation.Spells, List.map_append, List.map_singleton]
  rw [hrest] at hterminals
  exact hterminals

/-- What is derived is read. -/
theorem ofTokens_of_derivation {d : Derivation} (hd : d.Spells ts)
    (hlexed : ∀ t ∈ d.yield, t.Lexed) (hadm : d.Admissible) : ofTokens ts = .ok d.tree := by
  have hterminals : (Cursor.ofTokens ts).terminals = d.yield ++ [mark .endOfInput] := hd
  obtain ⟨c, hrun, -⟩ := Parse.returns_decls
    ((Cursor.ofTokens ts).final :: (Cursor.ofTokens ts).rest)
    ⟨hterminals, hd.kind_final, hadm.inRange, hlexed⟩ rfl rfl (Nat.lt_succ_self _) hadm
  exact ofTokens_eq_ok.mpr ⟨c, hrun⟩

/-- The tokens of a text are read as a program exactly if an admissible derivation spells them
and means that program. No other derivation spells them. -/
theorem ofTokens_eq_ok_iff_derivation {text : String} (h : Token.ofText text = .ok ts)
    (p : Program) :
    (ofTokens ts = .ok p ↔ ∃ d : Derivation, d.Spells ts ∧ d.tree = p ∧ d.Admissible) ∧
      ∀ d d' : Derivation, d.Spells ts → d'.Spells ts → d = d' := by
  obtain ⟨init, stop, rfl, hinit⟩ := Token.scan_shape h
  refine ⟨⟨exists_derivation hinit, ?_⟩, fun d d' hd hd' => ?_⟩
  · rintro ⟨d, hspells, rfl, hadm⟩
    refine ofTokens_of_derivation hspells (fun t ht => ?_) hadm
    rw [← hspells.terminals_init] at ht
    obtain ⟨token, hmem, rfl⟩ := List.mem_map.mp ht
    exact (hinit token hmem).2
  · exact Derivation.yield_inj (List.append_cancel_right (hd.symm.trans hd'))

theorem derivation_of_small_text :
    let text := "var x = -y;"
    let ts : List Token := [⟨.varWord, none, 0, 3⟩, ⟨.identifier, some "x", 4, 5⟩,
      ⟨.equals, none, 6, 7⟩, ⟨.minus, none, 8, 9⟩, ⟨.identifier, some "y", 9, 10⟩,
      ⟨.semicolon, none, 10, 11⟩, Token.atEnd 11]
    let p : Program := ⟨[.var "x" (some (.unary .minus (.name "y")))]⟩
    Token.ofText text = .ok ts ∧ ofTokens ts = .ok p ∧
      ∃ d : Derivation, (d.Spells ts ∧ d.tree = p ∧ d.Admissible) ∧
        ∀ d' : Derivation, d'.Spells ts → d' = d := by
  intro text ts p
  have htext : Token.ofText text = .ok ts := by cbv
  have hparse : ofTokens ts = .ok p := rfl
  obtain ⟨hiff, hunique⟩ := ofTokens_eq_ok_iff_derivation htext p
  obtain ⟨d, hd⟩ := hiff.mp hparse
  exact ⟨htext, hparse, d, hd, fun d' hd' => hunique d' d hd' hd.1⟩

end Program

end Scriptlet
