-- SUMMARY: Every program that the grammar derives is read as its tree, if its declarations are admissible.
import Scriptlet.Proofs.Grammar.Limits
import Scriptlet.Proofs.Parse.CompleteExpr
import Scriptlet.Proofs.Parse.Moves
import Scriptlet.Proofs.Parse.Params

/-!
# Programs that are derived are read

Statements, parameters and declarations are read with no primary expression open,
so all of the limit on nesting is left for each expression in them.
-/
namespace Scriptlet

open Grammar
open Scriptlet.Action
open Terminal (mark word)

namespace Parse

variable {c c' : Cursor} {more : List Terminal}

/-! ## Statements -/

theorem returns_expr {s : Grammar.Sum} (hc : c.Before s.yield more) (hmore : Follows 0 more)
    (hd : c.depth = 0) (hs : s.Fits) : Returns expr c s.tree s.yield := by
  refine s.returns hc hmore ⟨hs.nesting, ?_⟩ hs.height
  rw [hd, Nat.zero_add]
  exact hs.nesting

/-- An expression and the semicolon behind it. -/
theorem returns_semicolon {s : Grammar.Sum} (hc : c.Before (s.yield ++ [mark .semicolon]) more)
    (hd : c.depth = 0) (hs : s.Fits) :
    ∃ c₁, expr.runOn c = (.ok s.tree, c₁) ∧ c₁.current.kind = .semicolon ∧
      c.Reads (s.yield ++ [mark .semicolon]) c₁.advance := by
  obtain ⟨c₁, hrun, hread⟩ := returns_expr hc.left (follows_semicolon _) hd hs
  have hsemi := hc.behind hread
  exact ⟨c₁, hrun, hsemi.kind_current, hread.trans (hsemi.reads (by simp))⟩

theorem returns_constBinding {x : String} {s : Grammar.Sum}
    (hc : c.Before (mark .constWord :: word x :: mark .equals :: (s.yield ++ [mark .semicolon]))
      more) (hd : c.depth = 0) (hs : s.Fits) :
    Returns constBinding c (x, s.tree)
      (mark .constWord :: word x :: mark .equals :: (s.yield ++ [mark .semicolon])) := by
  have h₁ := hc.advance (by simp)
  have h₂ := h₁.advance (by simp)
  obtain ⟨c₁, hrun, hsemi, hread⟩ := returns_semicolon (h₂.advance (by simp)) hd hs
  exact ⟨_, runOn_constBinding_eq_ok.mpr ⟨hc.kind_current, x, h₁.kind_current, h₁.text_current,
    h₂.kind_current, _, c₁, hrun, hsemi, rfl, rfl⟩,
    (hc.reads (by simp)).cons ((h₁.reads (by simp)).cons ((h₂.reads (by simp)).cons hread))⟩

theorem returns_varBinding {x : String} {s : Option Grammar.Sum}
    (hc : c.Before (mark .varWord :: word x :: (initializer s ++ [mark .semicolon])) more)
    (hd : c.depth = 0) (hs : ∀ t ∈ s, t.Fits) :
    Returns varBinding c (x, s.map Grammar.Sum.tree)
      (mark .varWord :: word x :: (initializer s ++ [mark .semicolon])) := by
  have h₁ := hc.advance (by simp)
  have h₂ := h₁.advance (by simp)
  cases s with
  | none =>
    exact ⟨_, runOn_varBinding_eq_ok.mpr ⟨hc.kind_current, x, h₁.kind_current, h₁.text_current,
      .inr ⟨h₂.kind_current, rfl, rfl⟩⟩,
      (hc.reads (by simp)).cons ((h₁.reads (by simp)).cons (h₂.reads (by simp)))⟩
  | some s =>
    obtain ⟨c₁, hrun, hsemi, hread⟩ := returns_semicolon (h₂.advance (by simp)) hd (hs s rfl)
    exact ⟨_, runOn_varBinding_eq_ok.mpr ⟨hc.kind_current, x, h₁.kind_current, h₁.text_current,
      .inl ⟨h₂.kind_current, _, c₁, hrun, hsemi, rfl, rfl⟩⟩,
      (hc.reads (by simp)).cons ((h₁.reads (by simp)).cons ((h₂.reads (by simp)).cons hread))⟩

theorem returns_stmt {s : Statement} (hc : c.Before s.yield more) (hd : c.depth = 0)
    (hs : s.Fits) : Returns stmt c s.tree s.yield := by
  cases s with
  | const x e =>
    obtain ⟨c₁, hrun, hread⟩ := returns_constBinding hc hd ⟨hs.height, hs.nesting⟩
    refine ⟨c₁, ?_, hread⟩
    rw [runOn_stmt, hc.kind_current]
    exact runOn_map_eq_ok.mpr ⟨_, hrun, rfl⟩
  | var x e =>
    obtain ⟨c₁, hrun, hread⟩ := returns_varBinding hc hd (Statement.fits_var_iff.mp hs)
    refine ⟨c₁, ?_, hread⟩
    rw [runOn_stmt, hc.kind_current]
    exact runOn_map_eq_ok.mpr ⟨_, hrun, rfl⟩
  | assign x e =>
    have h₁ := hc.advance (by simp)
    obtain ⟨c₁, hrun, hsemi, hread⟩ :=
      returns_semicolon (h₁.advance (by simp)) hd ⟨hs.height, hs.nesting⟩
    refine ⟨_, ?_, (hc.reads (by simp)).cons ((h₁.reads (by simp)).cons hread)⟩
    have hnext : c.next.kind ≠ .openParen := by simp [Cursor.next_eq, h₁.kind_current]
    rw [runOn_stmt, hc.kind_current]
    exact (if_neg hnext).trans (runOn_assignment_eq_ok.mpr ⟨x, hc.kind_current, hc.text_current,
      h₁.kind_current, _, c₁, hrun, hsemi, rfl, rfl⟩)
  | ret e =>
    obtain ⟨c₁, hrun, hsemi, hread⟩ :=
      returns_semicolon (hc.advance (by simp)) hd ⟨hs.height, hs.nesting⟩
    refine ⟨_, ?_, (hc.reads (by simp)).cons hread⟩
    rw [runOn_stmt, hc.kind_current]
    exact runOn_returnStmt_eq_ok.mpr ⟨hc.kind_current, _, c₁, hrun, hsemi, rfl, rfl⟩
  | call call =>
    have hnesting : c.Allows maxNesting call.nesting :=
      ⟨hs.nesting, by rw [hd, Nat.zero_add]; exact hs.nesting⟩
    obtain ⟨c₁, hrun, hread⟩ := call.returns (Cursor.Before.left hc) hnesting hs.height
    have hsemi := Cursor.Before.behind hc hread
    refine ⟨_, ?_, hread.trans (hsemi.reads (by simp))⟩
    have hk : c.current.kind = .identifier ∧ c.next.kind = .openParen := by
      obtain ⟨x, ts, hyield⟩ := call.yield_eq
      rw [Statement.yield, hyield] at hc
      exact ⟨hc.kind_current, (hc.advance (by simp)).kind_current⟩
    rw [runOn_stmt, hk.1]
    exact (if_pos hk.2).trans
      (runOn_callStmt_eq_ok.mpr ⟨_, c₁, hrun, hsemi.kind_current, rfl, rfl⟩)

theorem returns_body (rounds : List Token) {ss : List Statement}
    (hc : c.Before (ss.flatMap Statement.yield ++ [mark .closeBrace]) more) (hd : c.depth = 0)
    (hr : c.rest.length < rounds.length) (hs : ∀ s ∈ ss, s.Fits) :
    Returns (body rounds) c (ss.map Statement.tree)
      (ss.flatMap Statement.yield ++ [mark .closeBrace]) := by
  induction ss generalizing c rounds with
  | nil =>
    cases rounds with
    | nil => cases hr
    | cons token rounds =>
      exact ⟨_, runOn_body_eq_ok.mpr (.inl ⟨hc.kind_current, rfl, rfl⟩), hc.reads (by simp)⟩
  | cons s ss ih =>
    cases rounds with
    | nil => cases hr
    | cons token rounds =>
      rw [List.flatMap_cons, List.append_assoc] at hc ⊢
      obtain ⟨hfits, hall⟩ := List.forall_mem_cons.mp hs
      obtain ⟨c₁, hrun, hread⟩ := returns_stmt hc.left hd hfits
      have hne : c.current.kind ≠ .closeBrace := by
        rw [hc.kind_firstKind, List.append_assoc, s.firstKind_yield]
        cases s <;> simp [Statement.firstKind]
      obtain ⟨c₂, hmore, hread₂⟩ := ih rounds (hc.behind hread) (hread.depth.trans hd)
        (hread.rounds_lt s.yield_ne_nil hr) hall
      exact ⟨c₂, runOn_body_eq_ok.mpr (.inr ⟨hne, _, c₁, hrun, _, c₂, hmore, rfl, rfl⟩),
        hread.trans hread₂⟩

/-! ## Functions -/

theorem returns_param {f : String} {ps : Params} {p : Param} (hc : c.Before p.yield more)
    (hmore : Follows 0 more) (hne : firstKind more ≠ .equals) (hd : c.depth = 0)
    (hadmits : ps.Admits p) (hs : ∀ s ∈ p.default, s.Fits) :
    Returns (param f ps) c (ps.add p) p.yield := by
  rcases p with ⟨x, _ | s⟩
  · have hend := (hc.advance (by simp)).kind_firstKind
    have hoptional : ps.optional = [] := by
      by_contra ho
      exact absurd (hadmits.ordered ho) (by simp)
    refine ⟨_, runOn_param_eq_ok.mpr ⟨x, hc.kind_current, hc.text_current, hadmits.fresh,
      .inr ⟨by rw [hend]; exact hne, hoptional, ?_, rfl⟩⟩, hc.reads (by simp)⟩
    simp [Params.add, Param.required?, Param.optional?]
  · have h₁ := hc.advance (by simp)
    have h₂ := h₁.advance (by simp)
    obtain ⟨c₁, hrun, hread⟩ := returns_expr h₂ hmore hd (hs s rfl)
    refine ⟨c₁, runOn_param_eq_ok.mpr ⟨x, hc.kind_current, hc.text_current, hadmits.fresh,
      .inl ⟨h₁.kind_current, _, c₁, hrun, ?_, rfl⟩⟩,
      (hc.reads (by simp)).cons ((h₁.reads (by simp)).cons hread)⟩
    simp [Params.add, Param.required?, Param.optional?]

theorem returns_params {f : String} (rounds : List Token) {ps : Params} {q : Param}
    {qs : List Param}
    (hc : c.Before (Grammar.paramList (q :: qs) ++ [mark .closeParen]) more) (hd : c.depth = 0)
    (hr : c.rest.length < rounds.length) (hadmits : ps.AdmitsAll (q :: qs))
    (hs : ∀ p ∈ q :: qs, ∀ s ∈ p.default, s.Fits) :
    Returns (params f rounds ps) c ((q :: qs).foldl Params.add ps)
      (Grammar.paramList (q :: qs) ++ [mark .closeParen]) := by
  induction qs generalizing c rounds ps q with
  | nil =>
    cases rounds with
    | nil => cases hr
    | cons token rounds =>
      obtain ⟨c₁, hrun, hread⟩ := returns_param (f := f) hc.left (follows_closeParen _)
        (by simp [firstKind]) hd hadmits.1 (hs q List.mem_cons_self)
      have hclose := hc.behind hread
      exact ⟨_, runOn_params_eq_ok.mpr ⟨_, c₁, hrun, .inl ⟨hclose.kind_current, rfl, rfl⟩⟩,
        hread.trans (hclose.reads (by simp))⟩
  | cons r qs ih =>
    cases rounds with
    | nil => cases hr
    | cons token rounds =>
      rw [paramList_cons, paramTail, List.append_assoc] at hc ⊢
      obtain ⟨hfits, hall⟩ := List.forall_mem_cons.mp hs
      obtain ⟨c₁, hrun, hread⟩ := returns_param (f := f) hc.left (follows_comma _)
        (by simp [firstKind]) hd hadmits.1 hfits
      have hcomma := hc.behind hread
      have hread₁ := hread.trans (hcomma.reads (by simp))
      obtain ⟨c₂, hmore, hread₂⟩ := ih rounds (hcomma.advance (by simp)) (hread₁.depth.trans hd)
        (hread₁.rounds_lt (by simp) hr) hadmits.2 hall
      refine ⟨c₂, runOn_params_eq_ok.mpr ⟨_, c₁, hrun, .inr ⟨hcomma.kind_current, hmore⟩⟩, ?_⟩
      simpa using hread₁.trans hread₂

theorem returns_paramList {f : String} {qs : List Param}
    (hc : c.Before (Grammar.paramList qs ++ [mark .closeParen]) more) (hd : c.depth = 0)
    (hordered : ParamsOrdered qs) (hs : ∀ p ∈ qs, ∀ s ∈ p.default, s.Fits) :
    Returns (paramList f) c ⟨qs.filterMap Param.required?, qs.filterMap Param.optional?⟩
      (Grammar.paramList qs ++ [mark .closeParen]) := by
  cases qs with
  | nil =>
    exact ⟨_, runOn_paramList_eq_ok.mpr (.inl ⟨hc.kind_current, rfl, rfl⟩), hc.reads (by simp)⟩
  | cons q qs =>
    have hne : c.current.kind ≠ .closeParen := by
      rw [hc.kind_firstKind, paramList_cons]
      simp [Param.yield, firstKind]
    obtain ⟨c₁, hrun, hread⟩ := returns_params (f := f) (c.final :: c.rest) hc hd
      (Nat.lt_succ_self _) ((Params.admitsAll_empty _).mpr hordered) hs
    rw [Params.foldl_add] at hrun
    exact ⟨c₁, runOn_paramList_eq_ok.mpr (.inr ⟨hne, hrun⟩), hread⟩

theorem returns_function {f : FuncDecl} (hc : c.Before f.yield more) (hd : c.depth = 0)
    (hordered : ParamsOrdered f.params) (hs : (Declaration.func f).Fits) :
    Returns function c f.tree f.yield := by
  rcases f with ⟨x, qs, ss⟩
  have h₁ := hc.advance (by simp)
  have h₂ := h₁.advance (by simp)
  have h₃ := h₂.advance (by simp)
  rw [List.append_cons] at h₃
  obtain ⟨c₁, hrun₁, hread₁⟩ := returns_paramList (f := x) h₃.left hd hordered hs.1
  have hbrace := h₃.behind hread₁
  have hd₁ : c₁.advance.depth = 0 := hread₁.depth.trans hd
  obtain ⟨c₂, hrun₂, hread₂⟩ := returns_body (c₁.advance.final :: c₁.advance.rest)
    (hbrace.advance (by simp)) hd₁ (Nat.lt_succ_self _) hs.2
  refine ⟨c₂, runOn_function_eq_ok.mpr ⟨hc.kind_current, x, h₁.kind_current, h₁.text_current,
    h₂.kind_current, _, c₁, hrun₁, hbrace.kind_current, _, c₂, hrun₂, rfl, rfl⟩, ?_⟩
  have hread := (hc.reads (by simp)).cons ((h₁.reads (by simp)).cons ((h₂.reads (by simp)).cons
    (hread₁.trans ((hbrace.reads (by simp)).cons hread₂))))
  simpa [FuncDecl.yield] using hread

/-! ## Declarations -/

theorem returns_decl {d : Declaration} (hc : c.Before d.yield more) (hd : c.depth = 0)
    (hs : d.Admissible) : Returns decl c d.tree d.yield := by
  obtain ⟨-, hparams, hfits⟩ := d.admissible_iff.mp hs
  cases d with
  | const x s =>
    obtain ⟨c₁, hrun, hread⟩ := returns_constBinding hc hd hfits
    refine ⟨c₁, ?_, hread⟩
    rw [runOn_decl, hc.kind_current]
    exact runOn_map_eq_ok.mpr ⟨_, hrun, rfl⟩
  | var x s =>
    obtain ⟨c₁, hrun, hread⟩ := returns_varBinding hc hd hfits
    refine ⟨c₁, ?_, hread⟩
    rw [runOn_decl, hc.kind_current]
    exact runOn_map_eq_ok.mpr ⟨_, hrun, rfl⟩
  | func f =>
    obtain ⟨c₁, hrun, hread⟩ := returns_function hc hd (hparams f rfl) hfits
    refine ⟨c₁, ?_, hread⟩
    rw [runOn_decl, hc.kind_current]
    exact runOn_map_eq_ok.mpr ⟨_, hrun, rfl⟩

/-- The loop reads the declarations that are there, and goes on behind them. -/
theorem goesOn_decls (rounds : List Token) {ds : List Declaration}
    (hc : c.Before (ds.flatMap Declaration.yield) more) (hd : c.depth = 0)
    (hr : c.rest.length < rounds.length) (hs : ∀ d ∈ ds, d.Admissible) :
    ∃ c' rounds', c.Reads (ds.flatMap Declaration.yield) c' ∧ c.Onward c' ∧
      c'.rest.length < rounds'.length ∧
      (decls rounds).runOn c = ((ds.map Declaration.tree ++ ·) <$> decls rounds').runOn c' := by
  induction ds generalizing c rounds with
  | nil => exact ⟨c, rounds, .refl c, .refl c, hr, by simp⟩
  | cons d ds ih =>
    cases rounds with
    | nil => cases hr
    | cons token rounds =>
      rw [List.flatMap_cons] at hc ⊢
      obtain ⟨hadm, hall⟩ := List.forall_mem_cons.mp hs
      obtain ⟨c₁, hrun, hread⟩ := returns_decl hc.left hd hadm
      have honward : c.Onward c₁ := by
        have hmoves := moves_decl c
        rwa [hrun] at hmoves
      have hne : c.current.kind ≠ .endOfInput := by
        rw [hc.kind_firstKind, List.append_assoc, d.firstKind_yield]
        cases d <;> simp [Declaration.firstKind]
      obtain ⟨c₂, rounds', hread₂, honward₂, hr₂, hmore₂⟩ := ih rounds (hc.behind hread)
        (hread.depth.trans hd) (hread.rounds_lt d.yield_ne_nil hr) hall
      refine ⟨c₂, rounds', hread.trans hread₂, honward.trans honward₂, hr₂, ?_⟩
      rw [runOn_decls_of_ok hne hrun, runOn_map, hmore₂, runOn_map, runOn_map]
      cases ((decls rounds').runOn c₂).1 <;> rfl

theorem returns_decls (rounds : List Token) {ds : List Declaration}
    (hc : c.Before (ds.flatMap Declaration.yield) more) (hmore : firstKind more = .endOfInput)
    (hd : c.depth = 0) (hr : c.rest.length < rounds.length) (hs : ∀ d ∈ ds, d.Admissible) :
    Returns (decls rounds) c (ds.map Declaration.tree) (ds.flatMap Declaration.yield) := by
  obtain ⟨c', rounds', hread, -, hr', hrun⟩ := goesOn_decls rounds hc hd hr hs
  have hend := (hc.done hread).kind_firstKind.trans hmore
  refine ⟨c', hrun.trans ?_, hread⟩
  cases rounds' with
  | nil => cases hr'
  | cons token rounds' =>
    exact runOn_map_eq_ok.mpr ⟨[], runOn_decls_eq_ok.mpr (.inl ⟨hend, rfl, rfl⟩),
      List.append_nil _⟩

end Parse

end Scriptlet
