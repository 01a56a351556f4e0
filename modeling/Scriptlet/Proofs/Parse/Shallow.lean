-- SUMMARY: Programs that are read call names only, and their expressions are no higher than the parser allows.
import Scriptlet.Proofs.Parse.Agreement

/-!
# The trees of programs that are read

What the evaluation of a program may rely on when the program was read from a
text. What is called is a name, which the height of a call takes for granted: it
does not count what is called. No function has two parameters of one name.
-/
namespace Scriptlet

mutual

/-- Whatever the tree calls is a name. -/
def Expr.CallsNames : Expr → Prop
  | .null | .int _ | .float _ | .string _ | .name _ => True
  | .unary _ e => e.CallsNames
  | .binary _ l r => l.CallsNames ∧ r.CallsNames
  | .call callee args => (∃ x, callee = .name x) ∧ Expr.AllCallNames args

/-- Whatever the trees call are names. -/
def Expr.AllCallNames : List Expr → Prop
  | [] => True
  | e :: es => e.CallsNames ∧ Expr.AllCallNames es

end

theorem Expr.height_pos (e : Expr) : 0 < e.height := by
  cases e <;> simp [height]

theorem Expr.AllCallNames.mem {es : List Expr} (h : AllCallNames es) :
    ∀ e ∈ es, e.CallsNames ∧ e.height ≤ maxHeight es := by
  induction es with
  | nil => exact nofun
  | cons e es ih =>
    unfold maxHeight
    refine List.forall_mem_cons.mpr ⟨⟨h.1, Nat.le_max_left _ _⟩, fun e' he' => ?_⟩
    obtain ⟨hnames, hheight⟩ := ih h.2 e' he'
    exact ⟨hnames, Nat.le_trans hheight (Nat.le_max_right _ _)⟩

/-- The tree calls names only and is no higher than the parser allows. -/
structure Expr.Shallow (e : Expr) : Prop where
  callsNames : e.CallsNames
  height : e.height ≤ maxNesting

/-- The default values and the statements of the function are shallow. -/
def Function.Shallow (f : Function) : Prop := ∀ e ∈ f.exprs, e.Shallow

namespace Grammar

/-! ## Derivations call names -/

mutual

theorem Factor.callsNames_tree : (f : Factor) → f.tree.CallsNames
  | .literal l => by cases l <;> trivial
  | .name _ => trivial
  | .call c => c.callsNames_tree
  | .signed _ f => f.callsNames_tree
  | .parens s => s.callsNames_tree

theorem Call.callsNames_tree : (c : Call) → c.tree.CallsNames
  | .plain x => ⟨⟨x, rfl⟩, trivial⟩
  | .applied x args => ⟨⟨x, rfl⟩, args.callNames_trees⟩

theorem Args.callNames_trees : (args : Args) → Expr.AllCallNames args.trees
  | .last s => ⟨s.callsNames_tree, trivial⟩
  | .more s args => ⟨s.callsNames_tree, args.callNames_trees⟩

theorem Term.callsNames_tree : (t : Term) → t.tree.CallsNames
  | .mk f tail => tail.callsNames_onto f.callsNames_tree

theorem TermTail.callsNames_onto {e : Expr} :
    (tail : TermTail) → e.CallsNames → (tail.onto e).CallsNames
  | .done, h => h
  | .more _ f tail, h => tail.callsNames_onto ⟨h, f.callsNames_tree⟩

theorem Sum.callsNames_tree : (s : Grammar.Sum) → s.tree.CallsNames
  | .mk t tail => tail.callsNames_onto t.callsNames_tree

theorem SumTail.callsNames_onto {e : Expr} :
    (tail : SumTail) → e.CallsNames → (tail.onto e).CallsNames
  | .done, h => h
  | .more _ t tail, h => tail.callsNames_onto ⟨h, t.callsNames_tree⟩

end

theorem Statement.callsNames_value (s : Statement) : s.tree.value.CallsNames := by
  cases s with
  | const x t | assign x t | ret t => exact t.callsNames_tree
  | var x t =>
    cases t with
    | none => trivial
    | some t => exact t.callsNames_tree
  | call c => exact c.callsNames_tree

theorem Declaration.callsNames_exprs (d : Declaration) : ∀ e ∈ d.tree.exprs, e.CallsNames := by
  cases d with
  | const x s =>
    intro e he
    rw [List.mem_singleton.mp he]
    exact s.callsNames_tree
  | var x s =>
    intro e he
    obtain ⟨t, -, rfl⟩ := Option.map_eq_some_iff.mp (Option.mem_toList.mp he)
    exact t.callsNames_tree
  | func f =>
    exact forall_mem_exprs.mpr ⟨fun _ _ s _ => s.callsNames_tree, fun s _ => s.callsNames_value⟩

/-! ## Derivations name parameters once -/

/-- Required and optional parameters together are those that were written. -/
theorem FuncDecl.params_tree_perm (f : FuncDecl) :
    f.tree.params.Perm (f.params.map Param.ident) := by
  change ((f.params.filterMap Param.required?) ++
    (f.params.filterMap Param.optional?).map (·.ident)).Perm _
  induction f.params with
  | nil => exact .nil
  | cons p ps ih =>
    obtain ⟨x, _ | s⟩ := p
    · exact ih.cons x
    · exact List.perm_middle.trans (ih.cons x)

end Grammar

/-! ## Programs that are read -/

theorem Program.params_nodup_of_ofText {text : String} {p : Program} (h : ofText text = .ok p) :
    ∀ f ∈ p.functions, f.params.Nodup := by
  obtain ⟨ts, hscan, hparse⟩ := ofText_eq_ok.mp h
  obtain ⟨init, stop, rfl, hinit⟩ := Token.scan_shape hscan
  obtain ⟨d, -, rfl, hadm⟩ := exists_derivation hinit hparse
  intro f hf
  obtain ⟨decl, hdecl, hfunc⟩ := List.mem_filterMap.mp hf
  obtain ⟨g, hg, rfl⟩ := List.mem_map.mp hdecl
  cases g with
  | func g =>
    cases hfunc
    exact g.params_tree_perm.nodup_iff.mpr ((hadm _ hg).params g rfl).distinct
  | _ => cases hfunc

theorem Program.shallow_of_ofText {text : String} {p : Program} (h : ofText text = .ok p) :
    ∀ e ∈ p.exprs, e.Shallow := by
  obtain ⟨ts, hscan, hparse⟩ := ofText_eq_ok.mp h
  obtain ⟨init, stop, rfl, hinit⟩ := Token.scan_shape hscan
  obtain ⟨d, -, rfl, hadm⟩ := exists_derivation hinit hparse
  intro e he
  obtain ⟨decl, hdecl, he⟩ := List.mem_flatMap.mp he
  obtain ⟨g, hg, rfl⟩ := List.mem_map.mp hdecl
  exact ⟨g.callsNames_exprs e he, (hadm g hg).height e he⟩

theorem Program.exprs_subset_of_mem_functions {p : Program} {f : Function}
    (hf : f ∈ p.functions) : f.exprs ⊆ p.exprs := by
  obtain ⟨d, hd, hfunc⟩ := List.mem_filterMap.mp hf
  cases d with
  | func g =>
    cases hfunc
    exact fun e he => List.mem_flatMap.mpr ⟨_, hd, he⟩
  | _ => cases hfunc

end Scriptlet
