-- SUMMARY: A parser that has been asked before answers as a new one at its place: only the place is remembered.
import Scriptlet.Proofs.Parse.InStep

/-!
# Requests

A parser can be asked for an expression, a statement, a declaration or the rest of a program,
and asked again whether it could answer or not. All that it remembers is where it stands:
no primary expression is left open, and the height of a tree that was read is looked at
only by what builds another tree on top of it.
-/
namespace Scriptlet

open Scriptlet.Action

/-- What a parser can be asked for. -/
inductive Request where
  | expr
  | stmt
  | decl
  | program
  deriving Repr, DecidableEq

namespace Request

/-- What a request is answered with. -/
def Answer : Request → Type
  | expr => Expr
  | stmt => Stmt
  | decl => Decl
  | program => Program

/-- Reads what is asked for. -/
def read : (r : Request) → Parse r.Answer
  | expr => Parse.expr
  | stmt => Parse.stmt
  | decl => Parse.decl
  | program => Parse.program

theorem moves_read (r : Request) : Parse.Moves r.read := by
  cases r with
  | expr => exact Parse.moves_expr
  | stmt => exact Parse.moves_stmt
  | decl => exact Parse.moves_decl
  | program => exact Parse.moves_program

/-- Two readers at the same tokens give the same answer, whatever heights were recorded before. -/
theorem exists_inStep_read (r : Request) :
    ∃ known, Parse.InStep 0 none ⟨0, false⟩ known r.read r.read := by
  cases r with
  | expr => exact ⟨_, Parse.inStep_expr 0 false⟩
  | stmt => exact ⟨_, Parse.inStep_stmt⟩
  | decl => exact ⟨_, Parse.inStep_decl⟩
  | program => exact ⟨_, Parse.inStep_program⟩

end Request

namespace Cursor

variable {tokens : List Token} {c : Cursor}

/-- The cursor that requests leave which are made one after another, answered or not. -/
def after (c : Cursor) (requests : List Request) : Cursor :=
  requests.foldl (fun c r => (r.read.runOn c).2) c

theorem onward_after (c : Cursor) (requests : List Request) : c.Onward (c.after requests) := by
  induction requests generalizing c with
  | nil => exact .refl c
  | cons r requests ih => exact (r.moves_read c).trans (ih _)

theorem onward_atIndex (tokens : List Token) (index : Nat) :
    (ofTokens tokens).Onward (atIndex tokens index) :=
  ⟨List.drop_suffix index tokens, rfl, rfl⟩

/-- A cursor that was moved onward stands before a token of the list, or behind all of them. -/
theorem Onward.exists_atIndex (h : (ofTokens tokens).Onward c) :
    ∃ index ≤ tokens.length, ∃ height, c = { atIndex tokens index with height } := by
  refine ⟨tokens.length - c.rest.length, Nat.sub_le _ _, c.height, ?_⟩
  have hrest : c.rest = tokens.drop (tokens.length - c.rest.length) :=
    List.suffix_iff_eq_drop.mp h.rest
  have hfinal := h.final
  have hdepth := h.depth
  cases c
  cases hfinal
  cases hdepth
  exact congrArg (Cursor.mk · _ _ _) hrest

/-- Cursors that differ in the height recorded last see the same tokens. -/
theorem alike_withHeight (c : Cursor) (height : Nat) :
    Alike 0 none ⟨0, false⟩ c { c with height } where
  tokens := .all (Token.map_shift_zero c.rest).symm (Token.shift_zero c.final).symm
  depth := rfl
  left := nofun
  height := nofun

/-- Cursors that see all the same tokens differ at most in the height recorded last. -/
theorem Alike.exists_withHeight {known : Known} {c' : Cursor} (h : Alike 0 none known c c') :
    ∃ height, c' = { c with height } := by
  obtain ⟨hrest, hfinal⟩ := h.tokens
  rw [Token.map_shift_zero] at hrest
  rw [Token.shift_zero] at hfinal
  have hdepth := h.depth
  cases c'
  cases hrest
  cases hfinal
  cases hdepth
  exact ⟨_, rfl⟩

end Cursor

/-- The height recorded last neither changes an answer nor where the parser stands then. -/
theorem Request.exists_runOn_withHeight (r : Request) (c : Cursor) (height : Nat) :
    ∃ answer c' height', r.read.runOn c = (answer, c') ∧
      r.read.runOn { c with height } = (answer, { c' with height := height' }) := by
  obtain ⟨known, hstep⟩ := r.exists_inStep_read
  have hsame := hstep.same c _ (c.alike_withHeight height) trivial
  generalize r.read.runOn c = x, r.read.runOn { c with height } = y at hsame
  cases hsame with
  | ok halike =>
    obtain ⟨height', rfl⟩ := halike.exists_withHeight
    exact ⟨_, _, height', rfl, rfl⟩
  | error halike =>
    obtain ⟨height', rfl⟩ := halike.exists_withHeight
    rw [ParseError.shift_zero]
    exact ⟨_, _, height', rfl, rfl⟩

/-- Whatever a parser was asked before, it stands at some place with nothing open, and what it is asked
next it answers as a new parser at that place would, and then stands where that would stand. -/
theorem read_after (tokens : List Token) (earlier : List Request) (next : Request) :
    ∃ index ≤ tokens.length, ∃ height,
      (Cursor.ofTokens tokens).after earlier = { Cursor.atIndex tokens index with height } ∧
      ∃ index' ≤ tokens.length, ∃ answer height₁ height₂,
        next.read.runOn ((Cursor.ofTokens tokens).after earlier) =
          (answer, { Cursor.atIndex tokens index' with height := height₁ }) ∧
        next.read.runOn (Cursor.atIndex tokens index) =
          (answer, { Cursor.atIndex tokens index' with height := height₂ }) := by
  obtain ⟨index, hindex, height, hc⟩ :=
    ((Cursor.ofTokens tokens).onward_after earlier).exists_atIndex
  obtain ⟨answer, c', height', hnew, hold⟩ :=
    next.exists_runOn_withHeight (Cursor.atIndex tokens index) height
  have honward : (Cursor.ofTokens tokens).Onward c' :=
    (Cursor.onward_atIndex tokens index).trans (next.moves_read.onward hnew)
  obtain ⟨index', hindex', height₂, rfl⟩ := honward.exists_atIndex
  refine ⟨index, hindex, height, hc, index', hindex', answer, height', height₂, ?_, hnew⟩
  rw [hc, hold]

end Scriptlet
