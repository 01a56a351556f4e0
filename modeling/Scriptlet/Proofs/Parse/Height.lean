-- SUMMARY: The height that a parser keeps is the height of the tree it returned, and within the limit.
import Scriptlet.Proofs.Parse.Steps

/-!
# Heights of the trees that are read

A reader of expressions leaves the height of its tree in the cursor. The readers
around it rely on that to tell the height of the trees they build. None of this
depends on what the tokens are.
-/
namespace Scriptlet.Parse

open Grammar (operatorOver?)

variable {c c' : Cursor} {e lhs : Expr}

/-- The reader leaves the height of its tree in the cursor, and the tree is not too high. -/
def Measured (x : Parse Expr) : Prop :=
  ∀ ⦃c e c'⦄, x.runOn c = (.ok e, c') → c'.height = e.height ∧ e.height ≤ maxNesting

theorem measured_leaf (h : e.height = 1) : Measured (leaf e) := by
  intro c _ c' hrun
  cases hrun
  rw [h]
  exact ⟨rfl, by decide⟩

theorem measured_number {α : Type} {read? : List Char → Option α} {make : α → Expr}
    (h : ∀ a, (make a).height = 1) : Measured (number read? make) := by
  intro c e c' hrun
  obtain ⟨a, -, rfl, rfl⟩ := runOn_number_eq_ok.mp hrun
  rw [h a]
  exact ⟨rfl, by decide⟩

theorem measured_name : Measured name := by
  intro c e c' hrun
  obtain ⟨x, -, -, rfl, rfl⟩ := runOn_name_eq_ok.mp hrun
  exact ⟨by rw [Expr.height], by rw [Expr.height]; decide⟩

theorem measured_signed {op : UnaryOp} {operand : Parse Expr} (h : Measured operand) :
    Measured (signed op operand) := by
  intro c e c' hrun
  obtain ⟨e₁, c₁, he, hlt, rfl, rfl⟩ := runOn_signed_eq_ok.mp hrun
  obtain ⟨hheight, -⟩ := h he
  rw [Expr.height, ← hheight]
  exact ⟨rfl, hlt⟩

theorem measured_parenthesized {expr : Parse Expr} (h : Measured expr) :
    Measured (parenthesized expr) := by
  intro c e c' hrun
  obtain ⟨c₁, he, -, rfl⟩ := runOn_parenthesized_eq_ok.mp hrun
  have hheight := h he
  exact hheight

theorem arguments_height {expr : Parse Expr} (h : Measured expr) {rounds : List Token}
    {highest height : Nat} {es : List Expr}
    (hrun : (arguments expr rounds highest).runOn c = (.ok (es, height), c')) :
    height = max highest (Expr.maxHeight es) := by
  induction rounds generalizing c highest es with
  | nil => simp [arguments] at hrun
  | cons token rounds ih =>
    obtain ⟨e, c₁, he, hmore⟩ := runOn_arguments_eq_ok.mp hrun
    obtain ⟨hheight, -⟩ := h he
    obtain ⟨-, rfl, rfl, -⟩ | ⟨-, es', rfl, hmore⟩ := hmore
    · rw [hheight, Expr.maxHeight, Expr.maxHeight, Nat.max_zero]
    · rw [ih hmore, hheight, Expr.maxHeight, Nat.max_assoc]

theorem measured_call {expr : Parse Expr} (h : Measured expr) : Measured (call expr) := by
  intro c e c' hrun
  obtain ⟨x, -, -, -, ⟨-, rfl, rfl⟩ | ⟨-, es, height, c₁, hargs, hlt, rfl, rfl⟩⟩ :=
    runOn_call_eq_ok.mp hrun
  · simp [Expr.height, Expr.maxHeight, maxNesting]
  · have hheight := arguments_height h hargs
    rw [Nat.zero_max] at hheight
    rw [Expr.height, ← hheight]
    exact ⟨rfl, hlt⟩

/-- Reading on behind a left operand keeps the height of the tree that was built. -/
theorem chain_height {operand : Nat → Parse Expr} (h : ∀ least, Measured (operand least))
    {least : Nat} {rounds : List Token} (hlhs : c.height = lhs.height)
    (hlimit : lhs.height ≤ maxNesting)
    (hrun : (chain operand least rounds lhs).runOn c = (.ok e, c')) :
    c'.height = e.height ∧ e.height ≤ maxNesting := by
  induction rounds generalizing c lhs with
  | nil => cases hrun; exact ⟨hlhs, hlimit⟩
  | cons token rounds ih =>
    cases hop : operatorOver? least c.current.kind with
    | none =>
      rw [runOn_chain_of_none hop] at hrun
      cases hrun
      exact ⟨hlhs, hlimit⟩
    | some op =>
      obtain ⟨rhs, c₁, hrhs, hlt, hmore⟩ := (runOn_chain_eq_ok hop).mp hrun
      obtain ⟨hheight, -⟩ := h _ hrhs
      rw [hlhs, hheight] at hlt hmore
      exact ih (by rw [Expr.height]) (by rw [Expr.height]; exact hlt) hmore

theorem measured_operators {primary : Parse Expr} (h : Measured primary) (levels least : Nat) :
    Measured (operators primary levels least) := by
  induction levels generalizing least with
  | zero => exact h
  | succ levels ih =>
    intro c e c' hrun
    obtain ⟨lhs, c₁, hlhs, hchain⟩ := runOn_operators_eq_ok.mp hrun
    obtain ⟨hheight, hlimit⟩ := h hlhs
    exact chain_height ih hheight hlimit hchain

theorem measured_atom {primary : Parse Expr} (h : Measured primary) :
    Measured (atom primary) := by
  intro c e c' hrun
  rw [runOn_atom] at hrun
  cases hk : c.current.kind <;> simp only [hk] at hrun
  case integer => exact measured_number (fun _ => by rw [Expr.height]) hrun
  case float => exact measured_number (fun _ => by rw [Expr.height]) hrun
  case string => exact measured_leaf (by rw [Expr.height]) hrun
  case null => exact measured_leaf (by rw [Expr.height]) hrun
  case identifier =>
    split at hrun
    · exact measured_call (measured_operators h _ _) hrun
    · exact measured_name hrun
  case plus => exact measured_signed h hrun
  case minus => exact measured_signed h hrun
  case openParen => exact measured_parenthesized (measured_operators h _ _) hrun
  all_goals cases hrun

theorem measured_primary (levels : Nat) : Measured (primary levels) := by
  induction levels with
  | zero => intro c e c' hrun; cases hrun
  | succ levels ih =>
    intro c e c' hrun
    obtain ⟨-, c₁, hatom, rfl⟩ := runOn_primary_eq_ok.mp hrun
    have hheight := measured_atom ih hatom
    exact hheight

theorem measured_exprOver (least : Nat) : Measured (exprOver least) :=
  measured_operators (measured_primary _) _ _

end Scriptlet.Parse
