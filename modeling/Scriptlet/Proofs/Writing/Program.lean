-- SUMMARY: What a well-formed program is written as has an admissible derivation that means the program.
import Scriptlet.Proofs.Writing.Derivation

/-!
# Written programs are derived

The derivation of a program is put together from those of its statements and
declarations, each with what the parser will ask of it.
-/
namespace Scriptlet

open Grammar
open Terminal (mark word)

/-- Lists that are written item by item are derived item by item. -/
theorem exists_map_of_forall₂ {α β : Type} {R : α → List Terminal → Prop}
    {yield : β → List Terminal} {tree : β → α} {P : β → Prop} {l : List α}
    {tss : List (List Terminal)} (h : l.Forall₂ R tss)
    (hex : ∀ a ∈ l, ∀ ts, R a ts → ∃ b, yield b = ts ∧ tree b = a ∧ P b) :
    ∃ bs : List β, bs.map yield = tss ∧ bs.map tree = l ∧ ∀ b ∈ bs, P b := by
  induction h with
  | nil => exact ⟨[], rfl, rfl, by simp⟩
  | @cons a ts l tss hr hs ih =>
    obtain ⟨hhead, htail⟩ := List.forall_mem_cons.mp hex
    obtain ⟨b, rfl, rfl, hb⟩ := hhead ts hr
    obtain ⟨bs, rfl, rfl, hbs⟩ := ih htail
    exact ⟨b :: bs, rfl, rfl, List.forall_mem_cons.mpr ⟨hb, hbs⟩⟩

/-! ## Statements -/

/-- The statement keeps the limits and its terminals can be written. -/
structure Grammar.Statement.Sound (s : Statement) : Prop where
  fits : s.Fits
  writable : ∀ t ∈ s.yield, t.Writable

theorem Stmt.Written.exists_statement {s : Stmt} {ts : List Terminal} (h : s.Written ts)
    (hs : s.WellFormed) (hh : s.value.height ≤ maxNesting) :
    ∃ g : Statement, g.yield = ts ∧ g.tree = s ∧ g.Sound := by
  cases h with
  | const h =>
    have hw := h.writable hs.2
    obtain ⟨e, rfl, rfl, hfits⟩ := h.exists_sum hh
    refine ⟨.const _ e, rfl, rfl, ⟨hfits.height, hfits.nesting⟩, ?_⟩
    simpa [Statement.yield, or_imp, forall_and, Token.Kind.isMark] using ⟨hs.1, hw⟩
  | var h =>
    have hw := h.writable hs.2
    obtain ⟨e, rfl, rfl, hfits⟩ := h.exists_sum hh
    refine ⟨.var _ (some e), rfl, rfl, ⟨hfits.height, hfits.nesting⟩, ?_⟩
    simpa [Statement.yield, initializer, or_imp, forall_and, Token.Kind.isMark] using ⟨hs.1, hw⟩
  | varNull x =>
    refine ⟨.var x none, rfl, rfl, Statement.fits_var_iff.mpr (by simp), ?_⟩
    simpa [Statement.yield, initializer, Token.Kind.isMark] using hs.1
  | assign h =>
    have hw := h.writable hs.2
    obtain ⟨e, rfl, rfl, hfits⟩ := h.exists_sum hh
    refine ⟨.assign _ e, rfl, rfl, ⟨hfits.height, hfits.nesting⟩, ?_⟩
    simpa [Statement.yield, or_imp, forall_and, Token.Kind.isMark] using ⟨hs.1, hw⟩
  | ret h =>
    have hw := h.writable hs
    obtain ⟨e, rfl, rfl, hfits⟩ := h.exists_sum hh
    refine ⟨.ret e, rfl, rfl, ⟨hfits.height, hfits.nesting⟩, ?_⟩
    simpa [Statement.yield, or_imp, forall_and, Token.Kind.isMark] using hw
  | call h =>
    have hw := h.writable hs.2
    cases h with
    | call h =>
      obtain ⟨c, hyield, htree, hn⟩ := exists_call h.derivedArgs
      have hnesting := Nat.le_trans (Nat.le_of_lt hn) hh
      rw [← hyield] at hw ⊢
      rw [← htree] at hh ⊢
      refine ⟨.call c, rfl, rfl, ⟨hh, hnesting⟩, ?_⟩
      simpa [Statement.yield, or_imp, forall_and, Token.Kind.isMark] using hw

/-! ## Functions -/

/-- Parameters with commas between them are written as a list of parameters. -/
theorem paramList_eq_commas (qs : List Param) : paramList qs = commas (qs.map Param.yield) := by
  induction qs with
  | nil => rfl
  | cons q qs ih =>
    cases qs with
    | nil => rfl
    | cons r qs =>
      rw [List.map_cons, commas_cons (by simp), ← ih]
      rfl

/-- A parameter with a default value. -/
def optionalParam (p : String × Grammar.Sum) : Param := ⟨p.1, some p.2⟩

/-- A parameter without a default value. -/
def requiredParam (x : String) : Param := ⟨x, none⟩

theorem OptionalParam.Written.exists_param {o : OptionalParam} {ts : List Terminal}
    (h : o.Written ts) (hident : Token.IsIdentifier o.ident) (hdefault : o.default.WellFormed)
    (hh : o.default.height ≤ maxNesting) :
    ∃ p : String × Grammar.Sum, (optionalParam p).yield = ts ∧ ⟨p.1, p.2.tree⟩ = o ∧
      p.2.Fits ∧ ∀ t ∈ (optionalParam p).yield, t.Writable := by
  cases h with
  | @mk x e ts h =>
    have hw := h.writable hdefault
    obtain ⟨s, rfl, rfl, hfits⟩ := h.exists_sum hh
    refine ⟨(x, s), rfl, rfl, hfits, ?_⟩
    simpa [optionalParam, Param.yield, initializer, or_imp, forall_and, Token.Kind.isMark] using
      ⟨hident, hw⟩

/-- Parameters, the required ones first. -/
def paramsOf (xs : List String) (ps : List (String × Grammar.Sum)) : List Param :=
  xs.map requiredParam ++ ps.map optionalParam

section
variable {xs : List String} {ps : List (String × Grammar.Sum)}

/-- Required parameters and then optional ones with distinct names are in order. -/
theorem paramsOrdered_paramsOf (h : (xs ++ ps.map Prod.fst).Nodup) :
    ParamsOrdered (paramsOf xs ps) := by
  constructor
  · simpa [paramsOf, Function.comp_def, requiredParam, optionalParam] using h
  · refine List.pairwise_append.mpr ⟨?_, ?_, ?_⟩
    · exact List.pairwise_map.mpr (List.pairwise_of_forall fun x y h => by cases h)
    · exact List.pairwise_map.mpr (List.pairwise_of_forall fun p q _ => rfl)
    · intro p hp q hq _
      obtain ⟨o, -, rfl⟩ := List.mem_map.mp hq
      rfl

theorem filterMap_required (xs : List String) (ps : List (String × Grammar.Sum)) :
    (paramsOf xs ps).filterMap Param.required? = xs := by
  simp [paramsOf, List.filterMap_append, List.filterMap_map, Function.comp_def, requiredParam,
    optionalParam, Param.required?]

theorem filterMap_optional (xs : List String) (ps : List (String × Grammar.Sum)) :
    (paramsOf xs ps).filterMap Param.optional? = ps.map fun p => ⟨p.1, p.2.tree⟩ := by
  simp [paramsOf, List.filterMap_append, List.filterMap_map, Function.comp_def, requiredParam,
    optionalParam, Param.optional?]

theorem paramList_paramsOf (xs : List String) (ps : List (String × Grammar.Sum)) :
    paramList (paramsOf xs ps) =
      commas (xs.map (fun x => [word x]) ++ ps.map fun p => (optionalParam p).yield) := by
  rw [paramList_eq_commas]
  simp [paramsOf, Function.comp_def, requiredParam, Param.yield, initializer]

theorem fits_paramsOf (h : ∀ p ∈ ps, p.2.Fits) :
    ∀ p ∈ paramsOf xs ps, ∀ s ∈ p.default, s.Fits := by
  intro p hp s hs
  obtain hp | hp := List.mem_append.mp hp
  · obtain ⟨x, -, rfl⟩ := List.mem_map.mp hp
    cases hs
  · obtain ⟨q, hq, rfl⟩ := List.mem_map.mp hp
    cases hs
    exact h q hq

theorem writable_paramsOf (hxs : ∀ x ∈ xs, Token.IsIdentifier x)
    (hps : ∀ p ∈ ps, ∀ t ∈ (optionalParam p).yield, t.Writable) :
    ∀ t ∈ paramList (paramsOf xs ps), t.Writable := by
  rw [paramList_paramsOf]
  refine writable_commas (List.forall_mem_append.mpr ⟨?_, ?_⟩)
  · intro ts hts
    obtain ⟨x, hx, rfl⟩ := List.mem_map.mp hts
    exact List.forall_mem_singleton.mpr (Terminal.writable_word_iff.mpr (hxs x hx))
  · intro ts hts
    obtain ⟨q, hq, rfl⟩ := List.mem_map.mp hts
    exact hps q hq

end

theorem Function.Written.exists_funcDecl {f : Function} {ts : List Terminal} (h : f.Written ts)
    (hf : f.WellFormed) (hh : ∀ e ∈ f.exprs, e.height ≤ maxNesting) :
    ∃ g : FuncDecl, g.yield = ts ∧ g.tree = f ∧ ParamsOrdered g.params ∧
      (Declaration.func g).Fits ∧ ∀ t ∈ g.yield, t.Writable := by
  rcases h with ⟨hoptional, hbody⟩
  obtain ⟨hdefaults, hvalues⟩ := List.forall_mem_append.mp hh
  obtain ⟨ps, rfl, hps, hpsound⟩ := exists_map_of_forall₂ hoptional fun o ho ts hts =>
    hts.exists_param (hf.params _ (List.mem_append_right _ (List.mem_map_of_mem ho)))
      (hf.defaults o ho) (hdefaults _ (List.mem_map_of_mem ho))
  obtain ⟨ss, rfl, hss, hsound⟩ := exists_map_of_forall₂ hbody fun s hs ts hts =>
    hts.exists_statement (hf.body s hs) (hvalues _ (List.mem_map_of_mem hs))
  refine ⟨⟨f.ident, paramsOf f.required ps, ss⟩, ?_, ?_, ?_, ?_, ?_⟩
  · rw [FuncDecl.yield, paramList_paramsOf, List.flatMap_def]
  · rw [FuncDecl.tree, filterMap_required, filterMap_optional, hps, hss]
  · apply paramsOrdered_paramsOf
    have hnames : f.params = f.required ++ ps.map Prod.fst := by
      rw [Function.params, ← hps, List.map_map]
      rfl
    exact hnames ▸ hf.distinct
  · exact ⟨fits_paramsOf fun p hp => (hpsound p hp).1, fun s hs => (hsound s hs).fits⟩
  · have hparams : ∀ t ∈ paramList (paramsOf f.required ps), t.Writable :=
      writable_paramsOf (fun x hx => hf.params x (List.mem_append_left _ hx))
        fun p hp => (hpsound p hp).2
    have hstmts : ∀ t ∈ ss.flatMap Statement.yield, t.Writable := by
      intro t ht
      obtain ⟨s, hs, ht⟩ := List.mem_flatMap.mp ht
      exact (hsound s hs).writable t ht
    unfold FuncDecl.yield
    simp only [List.forall_mem_cons, List.forall_mem_append, Terminal.writable_mark_iff,
      Terminal.writable_word_iff, List.not_mem_nil, false_imp_iff, implies_true, and_true]
    exact ⟨rfl, hf.ident, rfl, hparams, rfl, rfl, hstmts, rfl⟩

/-! ## Declarations -/

theorem Decl.Written.exists_declaration {d : Decl} {ts : List Terminal} (h : d.Written ts)
    (hd : d.WellFormed) (hh : ∀ e ∈ d.exprs, e.height ≤ maxNesting) :
    ∃ g : Declaration, g.yield = ts ∧ g.tree = d ∧ g.Admissible ∧ ∀ t ∈ g.yield, t.Writable := by
  suffices hpieces : ∃ g : Declaration, g.yield = ts ∧ g.tree = d ∧
      (∀ f, g = .func f → ParamsOrdered f.params) ∧ g.Fits ∧ ∀ t ∈ g.yield, t.Writable by
    obtain ⟨g, hyield, htree, hparams, hfits, hw⟩ := hpieces
    exact ⟨g, hyield, htree, g.admissible_iff.mpr ⟨fun t ht => (hw t ht).inRange, hparams, hfits⟩,
      hw⟩
  cases h with
  | const h =>
    have hw := h.writable hd.2
    obtain ⟨e, rfl, rfl, hfits⟩ := h.exists_sum (hh _ (by simp [Decl.exprs]))
    refine ⟨.const _ e, rfl, rfl, by simp, hfits, ?_⟩
    simpa [Declaration.yield, or_imp, forall_and, Token.Kind.isMark] using ⟨hd.1, hw⟩
  | var h =>
    have hw := h.writable (hd.2 _ rfl)
    obtain ⟨e, rfl, rfl, hfits⟩ := h.exists_sum (hh _ (by simp [Decl.exprs]))
    refine ⟨.var _ (some e), rfl, rfl, by simp, by simpa [Declaration.Fits] using hfits, ?_⟩
    simpa [Declaration.yield, initializer, or_imp, forall_and, Token.Kind.isMark] using ⟨hd.1, hw⟩
  | varNone x =>
    refine ⟨.var x none, rfl, rfl, by simp, by simp [Declaration.Fits], ?_⟩
    simpa [Declaration.yield, initializer, Token.Kind.isMark] using hd.1
  | func h =>
    obtain ⟨g, rfl, rfl, hordered, hfits, hw⟩ := h.exists_funcDecl hd hh
    exact ⟨.func g, rfl, rfl, by simpa using hordered, hfits, hw⟩

/-- A written program has a derivation, all of whose terminals can be written. -/
theorem Program.Written.exists_derivation {p : Program} {ts : List Terminal} (h : p.Written ts)
    (hp : p.WellFormed) :
    ∃ d : Derivation, d.yield = ts ∧ d.tree = p ∧ (∀ g ∈ d.decls, g.Admissible) ∧
      ∀ t ∈ ts, t.Writable := by
  obtain ⟨tss, hdecls, rfl⟩ := h
  obtain ⟨gs, rfl, hgs, hsound⟩ := exists_map_of_forall₂ hdecls fun d hd ts hts =>
    hts.exists_declaration (hp.decls d hd) fun e he =>
      hp.height e (List.mem_flatMap.mpr ⟨d, hd, he⟩)
  refine ⟨⟨gs⟩, ?_, ?_, fun g hg => (hsound g hg).1, ?_⟩
  · rw [Derivation.yield, List.flatMap_def]
  · rw [Derivation.tree, hgs]
  · simpa using fun t g hg ht => (hsound g hg).2 t ht

end Scriptlet
