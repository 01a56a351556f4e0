-- SUMMARY: The limits on heights and nesting, piece by piece.
import Scriptlet.Proofs.Grammar

/-!
# Limits of a derivation

A derivation keeps the limits if each sum and each statement in it does. This is
the form in which a parser meets the limits.
-/
namespace Scriptlet.Grammar

/-- The sum keeps the limits on heights and nesting. -/
structure Sum.Fits (s : Grammar.Sum) : Prop where
  height : s.tree.height ≤ maxNesting
  nesting : s.nesting ≤ maxNesting

/-- What stands in the statement keeps the limits. -/
structure Statement.Fits (s : Statement) : Prop where
  height : s.tree.value.height ≤ maxNesting
  nesting : s.nesting ≤ maxNesting

/-- What stands in the declaration keeps the limits. -/
def Declaration.Fits : Declaration → Prop
  | .const _ s => s.Fits
  | .var _ s => ∀ t ∈ s, t.Fits
  | .func f => (∀ p ∈ f.params, ∀ s ∈ p.default, s.Fits) ∧ ∀ s ∈ f.body, s.Fits

theorem Sum.fits_iff (s : Grammar.Sum) :
    s.Fits ↔ s.tree.height ≤ maxNesting ∧ s.nesting ≤ maxNesting :=
  ⟨fun h => ⟨h.height, h.nesting⟩, fun h => ⟨h.1, h.2⟩⟩

theorem Statement.fits_iff (s : Statement) :
    s.Fits ↔ s.tree.value.height ≤ maxNesting ∧ s.nesting ≤ maxNesting :=
  ⟨fun h => ⟨h.height, h.nesting⟩, fun h => ⟨h.1, h.2⟩⟩

theorem initializer_fits_iff (s : Option Grammar.Sum) :
    (∀ t ∈ s, t.Fits) ↔
      (∀ t ∈ s, t.tree.height ≤ maxNesting) ∧ initializerNesting s ≤ maxNesting := by
  cases s with
  | none => simp [initializerNesting]
  | some s => simp [initializerNesting, Sum.fits_iff]

/-- A variable without a value keeps the limits. -/
theorem Statement.fits_var_iff {x : String} {s : Option Grammar.Sum} :
    (Statement.var x s).Fits ↔ ∀ t ∈ s, t.Fits := by
  rw [initializer_fits_iff, Statement.fits_iff]
  cases s <;> simp [Statement.tree, Stmt.value, Statement.nesting, Expr.height, maxNesting]

theorem forall_mem_exprs {f : FuncDecl} {P : Expr → Prop} :
    (∀ e ∈ f.tree.exprs, P e) ↔
      (∀ p ∈ f.params, ∀ s ∈ p.default, P s.tree) ∧ ∀ s ∈ f.body, P s.tree.value := by
  simp only [Function.exprs, FuncDecl.tree, List.forall_mem_append, List.forall_mem_map,
    List.mem_filterMap, forall_exists_index, and_imp]
  refine and_congr_left fun _ => ⟨fun h p hp s hs => ?_, fun h o p hp ho => ?_⟩
  · exact h ⟨p.ident, s.tree⟩ p hp (by rw [Param.optional?, hs]; rfl)
  · obtain ⟨s, hs, rfl⟩ := Option.map_eq_some_iff.mp ho
    exact h p hp s hs

/-- The limits of a declaration are those of its pieces. -/
theorem Declaration.fits_iff (d : Declaration) :
    d.Fits ↔
      (∀ e ∈ d.tree.exprs, e.height ≤ maxNesting) ∧ ∀ n ∈ d.nestings, n ≤ maxNesting := by
  cases d with
  | const x s => simp [Fits, tree, nestings, Decl.exprs, Sum.fits_iff]
  | var x s =>
    rw [Fits, initializer_fits_iff]
    simp [tree, nestings, Decl.exprs]
  | func f =>
    simp only [Fits, tree, nestings, Decl.exprs, forall_mem_exprs, FuncDecl.nestings,
      List.forall_mem_append, List.forall_mem_map, initializer_fits_iff, Statement.fits_iff,
      imp_and, forall_and]
    constructor
    · rintro ⟨⟨h₁, h₂⟩, h₃, h₄⟩
      exact ⟨⟨h₁, h₃⟩, h₂, h₄⟩
    · rintro ⟨⟨h₁, h₃⟩, h₂, h₄⟩
      exact ⟨⟨h₁, h₂⟩, h₃, h₄⟩

theorem Declaration.admissible_iff (d : Declaration) :
    d.Admissible ↔
      (∀ t ∈ d.yield, t.InRange) ∧ (∀ f, d = .func f → ParamsOrdered f.params) ∧ d.Fits := by
  rw [fits_iff]
  exact ⟨fun h => ⟨h.inRange, h.params, h.height, h.nesting⟩,
    fun h => ⟨h.1, h.2.1, h.2.2.1, h.2.2.2⟩⟩

end Scriptlet.Grammar
