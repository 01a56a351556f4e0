-- SUMMARY: Every program that is read from a text has a derivation of the terminals of the text.
import Scriptlet.Proofs.Grammar.Limits
import Scriptlet.Proofs.Parse.Height
import Scriptlet.Proofs.Parse.Params
import Scriptlet.Proofs.Parse.SoundExpr

/-!
# Programs that are read are derived

Statements, parameters and declarations are read by following the grammar. The
derivation is found piece by piece, with the limits that each piece keeps.
-/
namespace Scriptlet

open Grammar
open Scriptlet.Action
open Terminal (mark word)

namespace Parse

variable {c c' : Cursor}

/-! ## Statements -/

theorem reads_expr {e : Expr} (hc : c.Lexed) (h : expr.runOn c = (.ok e, c')) :
    ∃ s : Grammar.Sum, c.Reads s.yield c' ∧ s.tree = e ∧ s.Fits := by
  obtain ⟨s, hread, rfl, hn⟩ := readsSum_expr hc h
  exact ⟨s, hread, rfl, (measured_exprOver 0 h).2, hn⟩

theorem reads_constBinding {b : String × Expr} (hc : c.Lexed)
    (h : constBinding.runOn c = (.ok b, c')) :
    ∃ (x : String) (s : Grammar.Sum), (x, s.tree) = b ∧ s.Fits ∧
      c.Reads (mark .constWord :: word x :: mark .equals :: (s.yield ++ [mark .semicolon])) c' := by
  obtain ⟨hk, x, hword, htext, hequals, e, c₁, he, hsemi, rfl, rfl⟩ :=
    runOn_constBinding_eq_ok.mp h
  have h₁ := hc.reads_mark hk rfl
  have h₂ := h₁.cons ((hc.of_reads h₁).reads_word hword htext)
  have h₃ := h₂.trans ((hc.of_reads h₂).reads_mark hequals rfl)
  obtain ⟨s, hs, rfl, hfits⟩ := reads_expr (hc.of_reads h₃) he
  have h₄ := h₃.trans hs
  exact ⟨x, s, rfl, hfits, by
    simpa using h₄.trans ((hc.of_reads h₄).reads_mark hsemi rfl)⟩

theorem reads_varBinding {b : String × Option Expr} (hc : c.Lexed)
    (h : varBinding.runOn c = (.ok b, c')) :
    ∃ (x : String) (s : Option Grammar.Sum), (x, s.map Grammar.Sum.tree) = b ∧
      (∀ t ∈ s, t.Fits) ∧
      c.Reads (mark .varWord :: word x :: (initializer s ++ [mark .semicolon])) c' := by
  obtain ⟨hk, x, hword, htext, hvalue⟩ := runOn_varBinding_eq_ok.mp h
  have h₁ := hc.reads_mark hk rfl
  have h₂ := h₁.cons ((hc.of_reads h₁).reads_word hword htext)
  obtain ⟨hequals, e, c₁, he, hsemi, rfl, rfl⟩ | ⟨hsemi, rfl, rfl⟩ := hvalue
  · have h₃ := h₂.trans ((hc.of_reads h₂).reads_mark hequals rfl)
    obtain ⟨s, hs, rfl, hfits⟩ := reads_expr (hc.of_reads h₃) he
    have h₄ := h₃.trans hs
    refine ⟨x, some s, rfl, by simpa using hfits, ?_⟩
    simpa [initializer] using h₄.trans ((hc.of_reads h₄).reads_mark hsemi rfl)
  · refine ⟨x, none, rfl, by simp, ?_⟩
    simpa [initializer] using h₂.trans ((hc.of_reads h₂).reads_mark hsemi rfl)

theorem reads_assignment {st : Stmt} (hc : c.Lexed) (h : assignment.runOn c = (.ok st, c')) :
    ∃ s : Statement, c.Reads s.yield c' ∧ s.tree = st ∧ s.Fits := by
  obtain ⟨x, hk, htext, hequals, e, c₁, he, hsemi, rfl, rfl⟩ := runOn_assignment_eq_ok.mp h
  have h₁ := hc.reads_word hk htext
  have h₂ := h₁.cons ((hc.of_reads h₁).reads_mark hequals rfl)
  obtain ⟨s, hs, rfl, hfits⟩ := reads_expr (hc.of_reads h₂) he
  have h₃ := h₂.trans hs
  refine ⟨.assign x s, ?_, rfl, hfits.height, hfits.nesting⟩
  simpa [Statement.yield] using h₃.trans ((hc.of_reads h₃).reads_mark hsemi rfl)

theorem reads_returnStmt {st : Stmt} (hc : c.Lexed) (h : returnStmt.runOn c = (.ok st, c')) :
    ∃ s : Statement, c.Reads s.yield c' ∧ s.tree = st ∧ s.Fits := by
  obtain ⟨hk, e, c₁, he, hsemi, rfl, rfl⟩ := runOn_returnStmt_eq_ok.mp h
  have h₁ := hc.reads_mark hk rfl
  obtain ⟨s, hs, rfl, hfits⟩ := reads_expr (hc.of_reads h₁) he
  have h₂ := h₁.trans hs
  refine ⟨.ret s, ?_, rfl, hfits.height, hfits.nesting⟩
  simpa [Statement.yield] using h₂.trans ((hc.of_reads h₂).reads_mark hsemi rfl)

theorem reads_callStmt {st : Stmt} (hc : c.Lexed) (h : callStmt.runOn c = (.ok st, c')) :
    ∃ s : Statement, c.Reads s.yield c' ∧ s.tree = st ∧ s.Fits := by
  obtain ⟨e, c₁, he, hsemi, rfl, rfl⟩ := runOn_callStmt_eq_ok.mp h
  have hheight := (measured_call (measured_exprOver 0) he).2
  obtain ⟨call, hread, rfl, hn⟩ := reads_call readsSum_expr hc he
  exact ⟨.call call, hread.trans ((hc.of_reads hread).reads_mark hsemi rfl), rfl, hheight, hn⟩

theorem reads_stmt {st : Stmt} (hc : c.Lexed) (h : stmt.runOn c = (.ok st, c')) :
    ∃ s : Statement, c.Reads s.yield c' ∧ s.tree = st ∧ s.Fits := by
  rw [runOn_stmt] at h
  cases hk : c.current.kind <;> simp only [hk] at h
  case constWord =>
    obtain ⟨b, hb, rfl⟩ := runOn_map_eq_ok.mp h
    obtain ⟨x, s, rfl, hfits, hread⟩ := reads_constBinding hc hb
    exact ⟨.const x s, hread, rfl, hfits.height, hfits.nesting⟩
  case varWord =>
    obtain ⟨b, hb, rfl⟩ := runOn_map_eq_ok.mp h
    obtain ⟨x, s, rfl, hfits, hread⟩ := reads_varBinding hc hb
    exact ⟨.var x s, hread, rfl, Statement.fits_var_iff.mpr hfits⟩
  case returnWord => exact reads_returnStmt hc h
  case identifier =>
    split at h
    · exact reads_callStmt hc h
    · exact reads_assignment hc h
  all_goals cases h

theorem reads_body {rounds : List Token} {sts : List Stmt} (hc : c.Lexed)
    (h : (body rounds).runOn c = (.ok sts, c')) :
    ∃ ss : List Statement, c.Reads (ss.flatMap Statement.yield ++ [mark .closeBrace]) c' ∧
      ss.map Statement.tree = sts ∧ ∀ s ∈ ss, s.Fits := by
  induction rounds generalizing c sts with
  | nil => cases h
  | cons token rounds ih =>
    obtain ⟨hclose, rfl, rfl⟩ | ⟨-, st, c₁, hst, sts', c₂, hmore, rfl, rfl⟩ :=
      runOn_body_eq_ok.mp h
    · exact ⟨[], hc.reads_mark hclose rfl, rfl, by simp⟩
    · obtain ⟨s, hs, rfl, hfits⟩ := reads_stmt hc hst
      obtain ⟨ss, hss, rfl, hall⟩ := ih (hc.of_reads hs) hmore
      refine ⟨s :: ss, ?_, rfl, List.forall_mem_cons.mpr ⟨hfits, hall⟩⟩
      simpa using hs.trans hss

/-! ## Functions -/

theorem reads_param {f : String} {ps ps' : Params} (hc : c.Lexed)
    (h : (param f ps).runOn c = (.ok ps', c')) :
    ∃ p : Param, c.Reads p.yield c' ∧ ps.add p = ps' ∧ ps.Admits p ∧
      ∀ s ∈ p.default, s.Fits := by
  obtain ⟨x, hk, htext, hfresh, hvalue⟩ := runOn_param_eq_ok.mp h
  have h₁ := hc.reads_word hk htext
  obtain ⟨hequals, e, c₁, he, rfl, rfl⟩ | ⟨-, hempty, rfl, rfl⟩ := hvalue
  · have h₂ := h₁.cons ((hc.of_reads h₁).reads_mark hequals rfl)
    obtain ⟨s, hs, rfl, hfits⟩ := reads_expr (hc.of_reads h₂) he
    refine ⟨⟨x, some s⟩, h₂.trans hs, ?_, ⟨hfresh, fun _ => rfl⟩, by simpa using hfits⟩
    simp [Params.add, Param.required?, Param.optional?]
  · refine ⟨⟨x, none⟩, h₁, ?_, ⟨hfresh, fun h => absurd hempty h⟩, by simp⟩
    simp [Params.add, Param.required?, Param.optional?]

theorem reads_params {f : String} {rounds : List Token} {ps ps' : Params} (hc : c.Lexed)
    (h : (params f rounds ps).runOn c = (.ok ps', c')) :
    ∃ (q : Param) (qs : List Param),
      c.Reads (Grammar.paramList (q :: qs) ++ [mark .closeParen]) c' ∧
      (q :: qs).foldl Params.add ps = ps' ∧ ps.AdmitsAll (q :: qs) ∧
      ∀ r ∈ q :: qs, ∀ s ∈ r.default, s.Fits := by
  induction rounds generalizing c ps with
  | nil => cases h
  | cons token rounds ih =>
    obtain ⟨ps₁, c₁, hparam, hmore⟩ := runOn_params_eq_ok.mp h
    obtain ⟨q, hq, rfl, hadmits, hfits⟩ := reads_param hc hparam
    have hc₁ := hc.of_reads hq
    obtain ⟨hclose, rfl, rfl⟩ | ⟨hcomma, hmore⟩ := hmore
    · exact ⟨q, [], hq.trans (hc₁.reads_mark hclose rfl), rfl, ⟨hadmits, trivial⟩,
        by simpa using hfits⟩
    · have hcomma := hc₁.reads_mark hcomma rfl
      obtain ⟨r, qs, hqs, rfl, hall, hfitsAll⟩ := ih (hc₁.of_reads hcomma) hmore
      refine ⟨q, r :: qs, ?_, rfl, ⟨hadmits, hall⟩, List.forall_mem_cons.mpr ⟨hfits, hfitsAll⟩⟩
      simpa [Grammar.paramList] using hq.trans (hcomma.cons hqs)

theorem reads_paramList {f : String} {ps : Params} (hc : c.Lexed)
    (h : (paramList f).runOn c = (.ok ps, c')) :
    ∃ qs : List Param, c.Reads (Grammar.paramList qs ++ [mark .closeParen]) c' ∧
      ps = ⟨qs.filterMap Param.required?, qs.filterMap Param.optional?⟩ ∧ ParamsOrdered qs ∧
      ∀ q ∈ qs, ∀ s ∈ q.default, s.Fits := by
  obtain ⟨hclose, rfl, rfl⟩ | ⟨-, hparams⟩ := runOn_paramList_eq_ok.mp h
  · exact ⟨[], hc.reads_mark hclose rfl, rfl, ⟨List.nodup_nil, .nil⟩, by simp⟩
  · obtain ⟨q, qs, hread, rfl, hadmits, hfits⟩ := reads_params hc hparams
    refine ⟨q :: qs, hread, ?_, (Params.admitsAll_empty _).mp hadmits, hfits⟩
    rw [Params.foldl_add]
    rfl

theorem reads_function {f : Function} (hc : c.Lexed) (h : function.runOn c = (.ok f, c')) :
    ∃ d : FuncDecl, c.Reads d.yield c' ∧ d.tree = f ∧ ParamsOrdered d.params ∧
      (∀ q ∈ d.params, ∀ s ∈ q.default, s.Fits) ∧ ∀ s ∈ d.body, s.Fits := by
  obtain ⟨hk, x, hword, htext, hopen, ps, c₁, hps, hbrace, sts, c₂, hbody, rfl, rfl⟩ :=
    runOn_function_eq_ok.mp h
  have h₁ := hc.reads_mark hk rfl
  have h₂ := h₁.cons ((hc.of_reads h₁).reads_word hword htext)
  have h₃ := h₂.trans ((hc.of_reads h₂).reads_mark hopen rfl)
  obtain ⟨qs, hqs, rfl, hordered, hparams⟩ := reads_paramList (hc.of_reads h₃) hps
  have h₄ := h₃.trans hqs
  have h₅ := h₄.trans ((hc.of_reads h₄).reads_mark hbrace rfl)
  obtain ⟨ss, hss, rfl, hstmts⟩ := reads_body (hc.of_reads h₅) hbody
  refine ⟨⟨x, qs, ss⟩, ?_, rfl, hordered, hparams, hstmts⟩
  simpa [FuncDecl.yield] using h₅.trans hss

/-! ## Declarations -/

theorem reads_decl {d : Decl} (hc : c.Lexed) (h : decl.runOn c = (.ok d, c')) :
    ∃ g : Declaration, c.Reads g.yield c' ∧ g.tree = d ∧ g.Admissible := by
  suffices hpieces : ∃ g : Declaration, c.Reads g.yield c' ∧ g.tree = d ∧
      (∀ f, g = .func f → ParamsOrdered f.params) ∧ g.Fits by
    obtain ⟨g, hread, htree, hparams, hfits⟩ := hpieces
    refine ⟨g, hread, htree, g.admissible_iff.mpr ⟨fun t ht => ?_, hparams, hfits⟩⟩
    exact (hread.readable t ht).inRange
  rw [runOn_decl] at h
  cases hk : c.current.kind <;> simp only [hk] at h
  case constWord =>
    obtain ⟨b, hb, rfl⟩ := runOn_map_eq_ok.mp h
    obtain ⟨x, s, rfl, hfits, hread⟩ := reads_constBinding hc hb
    exact ⟨.const x s, hread, rfl, by simp, hfits⟩
  case varWord =>
    obtain ⟨b, hb, rfl⟩ := runOn_map_eq_ok.mp h
    obtain ⟨x, s, rfl, hfits, hread⟩ := reads_varBinding hc hb
    exact ⟨.var x s, hread, rfl, by simp, hfits⟩
  case funcWord =>
    obtain ⟨f, hf, rfl⟩ := runOn_map_eq_ok.mp h
    obtain ⟨g, hread, rfl, hordered, hfits⟩ := reads_function hc hf
    exact ⟨.func g, hread, rfl, by simpa using hordered, hfits⟩
  all_goals cases h

theorem reads_decls {rounds : List Token} {ds : List Decl} (hc : c.Lexed)
    (h : (decls rounds).runOn c = (.ok ds, c')) :
    ∃ gs : List Declaration, c.Reads (gs.flatMap Declaration.yield) c' ∧
      c'.current.kind = .endOfInput ∧ gs.map Declaration.tree = ds ∧ ∀ g ∈ gs, g.Admissible := by
  induction rounds generalizing c ds with
  | nil => cases h
  | cons token rounds ih =>
    obtain ⟨hend, rfl, rfl⟩ | ⟨-, d, c₁, hd, ds', c₂, hmore, rfl, rfl⟩ :=
      runOn_decls_eq_ok.mp h
    · exact ⟨[], .refl _, hend, rfl, by simp⟩
    · obtain ⟨g, hg, rfl, hadm⟩ := reads_decl hc hd
      obtain ⟨gs, hgs, hend, rfl, hall⟩ := ih (hc.of_reads hg) hmore
      refine ⟨g :: gs, ?_, hend, rfl, List.forall_mem_cons.mpr ⟨hadm, hall⟩⟩
      simpa using hg.trans hgs

end Parse

end Scriptlet
