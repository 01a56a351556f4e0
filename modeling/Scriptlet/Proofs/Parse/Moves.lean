-- SUMMARY: A reader only moves its cursor onward, and leaves as many primary expressions open as there were.
import Scriptlet.Proofs.Parse.Steps

/-!
# Where readers move

Whatever the tokens are and whether it returns or fails, a reader leaves the cursor
where it was or further on. The primary expressions that it opened are closed again.
-/
namespace Scriptlet

open Scriptlet.Action

/-- The second cursor stands at the first or further on, with as many primary expressions open. -/
structure Cursor.Onward (c c' : Cursor) : Prop where
  rest : c'.rest <:+ c.rest
  final : c'.final = c.final
  depth : c'.depth = c.depth

namespace Cursor.Onward

variable {c c₁ c' : Cursor}

theorem refl (c : Cursor) : c.Onward c := ⟨List.suffix_refl _, rfl, rfl⟩

theorem trans (h : c.Onward c₁) (h' : c₁.Onward c') : c.Onward c' :=
  ⟨h'.rest.trans h.rest, h'.final.trans h.final, h'.depth.trans h.depth⟩

theorem advance (c : Cursor) : c.Onward c.advance := ⟨List.tail_suffix _, rfl, rfl⟩

end Cursor.Onward

namespace Parse

variable {α β : Type} {x : Parse α}

/-- The reader leaves a cursor where it was or further on. -/
def Moves (x : Parse α) : Prop := ∀ c : Cursor, c.Onward (x.runOn c).2

theorem Moves.onward (hx : Moves x) {c c' : Cursor} {result : Except ParseError α}
    (h : x.runOn c = (result, c')) : c.Onward c' := by
  have honward := hx c
  rwa [h] at honward

/-! ## Steps -/

theorem moves_pure (a : α) : Moves (pure a) := Cursor.Onward.refl

theorem moves_throw (e : ParseError) : Moves (throw e : Parse α) := Cursor.Onward.refl

theorem moves_current : Moves current := Cursor.Onward.refl

theorem moves_get : Moves get := Cursor.Onward.refl

theorem moves_rounds : Moves rounds := Cursor.Onward.refl

theorem moves_advance : Moves advance := Cursor.Onward.advance

theorem moves_setHeight (height : Cursor → Nat) :
    Moves (modify fun c => { c with height := height c }) := fun _ => ⟨List.suffix_refl _, rfl, rfl⟩

theorem Moves.bind {f : α → Parse β} (hx : Moves x) (hf : ∀ a, Moves (f a)) :
    Moves (x >>= f) := by
  intro c
  have hc := hx c
  rcases hrun : x.runOn c with ⟨e | a, c₁⟩ <;> rw [hrun] at hc
  · rw [runOn_bind_error hrun]
    exact hc
  · rw [runOn_bind_ok hrun]
    exact hc.trans (hf a c₁)

theorem Moves.map (hx : Moves x) (g : α → β) : Moves (g <$> x) := by
  rw [map_eq_pure_bind]
  exact hx.bind fun a => moves_pure (g a)

theorem moves_unexpected (expected : Expected) : Moves (unexpected expected : Parse α) :=
  Cursor.Onward.refl

theorem moves_ifEat (kind : Token.Kind) {y : Parse α} (hx : Moves x) (hy : Moves y) :
    Moves (do if ← eat kind then x else y) := by
  intro c
  rw [runOn_ifEat]
  split
  · exact (Cursor.Onward.advance c).trans (hx c.advance)
  · exact hy c

theorem moves_expect (kind : Token.Kind) : Moves (expect kind) := by
  intro c
  rw [runOn_expect]
  split
  · exact .advance c
  · exact .refl c

theorem moves_ident : Moves ident := by
  intro c
  rw [runOn_ident]
  split
  · exact .advance c
  · exact .refl c

theorem moves_grow (below offset : Nat) : Moves (grow below offset) := by
  intro c
  rw [runOn_grow]
  split
  · exact .refl c
  · exact ⟨List.suffix_refl _, rfl, rfl⟩

theorem Moves.nested (hx : Moves x) : Moves (nested x) := by
  intro c
  rw [runOn_nested]
  split
  · exact .refl c
  · have hinner := hx { c with depth := c.depth + 1 }
    exact ⟨hinner.rest, hinner.final, congrArg (· - 1) hinner.depth⟩

/-! ## Names -/

/-- The reader consumes a name, or fails where it stands. -/
structure BeginsWithName (x : Parse α) : Prop where
  consumes : ∀ c : Cursor, c.current.name?.isSome → c.advance.Onward (x.runOn c).2
  refuses : ∀ c : Cursor, c.current.name? = none →
    x.runOn c = (.error (c.unexpected (.kind .identifier)), c)

theorem BeginsWithName.moves (hx : BeginsWithName x) : Moves x := by
  intro c
  cases hname : c.current.name? with
  | some name => exact (Cursor.Onward.advance c).trans (hx.consumes c (by rw [hname]; rfl))
  | none =>
    rw [hx.refuses c hname]
    exact .refl c

theorem beginsWithName_ident {f : String → Parse α} (hf : ∀ x, Moves (f x)) :
    BeginsWithName (ident >>= f) where
  consumes c hc := by
    obtain ⟨x, hx⟩ := Option.isSome_iff_exists.mp hc
    rw [runOn_bind, runOn_ident, hx]
    exact hf x c.advance
  refuses c hc := by rw [runOn_bind, runOn_ident, hc]

theorem beginsWithName_current {f : Token → Parse α} (hf : ∀ t, BeginsWithName (f t)) :
    BeginsWithName (current >>= f) where
  consumes c hc := (hf c.current).consumes c hc
  refuses c hc := (hf c.current).refuses c hc

theorem BeginsWithName.bind {f : α → Parse β} (hx : BeginsWithName x) (hf : ∀ a, Moves (f a)) :
    BeginsWithName (x >>= f) where
  consumes c hc := by
    have honward := hx.consumes c hc
    rcases hrun : x.runOn c with ⟨e | a, c₁⟩ <;> rw [hrun] at honward
    · rw [runOn_bind_error hrun]
      exact honward
    · rw [runOn_bind_ok hrun]
      exact honward.trans (hf a c₁)
  refuses c hc := runOn_bind_error (hx.refuses c hc)

/-! ## Expressions -/

theorem moves_leaf (e : Expr) : Moves (leaf e) :=
  moves_advance.bind fun _ => (moves_setHeight fun _ => 1).bind fun _ => moves_pure e

theorem moves_number (read? : List Char → Option α) (make : α → Expr) :
    Moves (number read? make) := by
  refine moves_current.bind fun t => ?_
  dsimp only
  split
  · exact moves_leaf _
  · exact moves_throw _

theorem beginsWithName_name : BeginsWithName name :=
  beginsWithName_ident fun _ => (moves_setHeight fun _ => 1).bind fun _ => moves_pure _

section
variable {expr primary : Parse Expr} {operand : Nat → Parse Expr}

theorem moves_arguments (hexpr : Moves expr) (rounds : List Token) (highest : Nat) :
    Moves (arguments expr rounds highest) := by
  induction rounds generalizing highest with
  | nil => exact moves_unexpected _
  | cons token rounds ih =>
    refine hexpr.bind fun e => moves_get.bind fun c => ?_
    refine moves_ifEat _ (moves_pure _) (moves_ifEat _ ?_ (moves_unexpected _))
    exact (ih _).bind fun _ => moves_pure _

theorem beginsWithName_call (hexpr : Moves expr) : BeginsWithName (call expr) := by
  refine beginsWithName_current fun t => beginsWithName_ident fun x => (moves_expect _).bind fun _ =>
    moves_ifEat _ ?_ (moves_rounds.bind fun rounds => ?_)
  · exact (moves_pure _).bind fun _ => (moves_grow _ _).bind fun _ => moves_pure _
  · exact (moves_arguments hexpr rounds 0).bind fun _ => (moves_grow _ _).bind fun _ =>
      moves_pure _

theorem moves_signed (op : UnaryOp) (hprimary : Moves primary) : Moves (signed op primary) :=
  moves_current.bind fun _ => moves_advance.bind fun _ => hprimary.bind fun _ =>
    moves_get.bind fun _ => (moves_grow _ _).bind fun _ => moves_pure _

theorem moves_operator? (least : Nat) : Moves (operator? least) := by
  intro c
  rw [runOn_operator?]
  exact .refl c

theorem moves_chain (hoperand : ∀ least, Moves (operand least)) (least : Nat)
    (rounds : List Token) (lhs : Expr) : Moves (chain operand least rounds lhs) := by
  induction rounds generalizing lhs with
  | nil => exact moves_pure lhs
  | cons token rounds ih =>
    refine (moves_operator? least).bind fun op => ?_
    cases op with
    | none => exact moves_pure lhs
    | some op =>
      exact moves_current.bind fun _ => moves_get.bind fun _ => moves_advance.bind fun _ =>
        (hoperand _).bind fun rhs => moves_get.bind fun _ => (moves_grow _ _).bind fun _ => ih _

theorem moves_operators (hprimary : Moves primary) (levels least : Nat) :
    Moves (operators primary levels least) := by
  induction levels generalizing least with
  | zero => exact hprimary
  | succ levels ih =>
    exact hprimary.bind fun lhs => moves_rounds.bind fun rounds => moves_chain ih least rounds lhs

theorem moves_parenthesized (hexpr : Moves expr) : Moves (parenthesized expr) :=
  moves_advance.bind fun _ => hexpr.bind fun e => (moves_expect _).bind fun _ => moves_pure e

theorem moves_atom (hprimary : Moves primary) : Moves (atom primary) := by
  have hexpr := moves_operators hprimary operatorLevels 0
  refine moves_get.bind fun c => ?_
  split
  · exact moves_number _ _
  · exact moves_number _ _
  · exact moves_leaf _
  · exact moves_leaf _
  · split
    · exact (beginsWithName_call hexpr).moves
    · exact beginsWithName_name.moves
  · exact moves_signed _ hprimary
  · exact moves_signed _ hprimary
  · exact moves_parenthesized hexpr
  · exact moves_unexpected _

end

theorem moves_primary (levels : Nat) : Moves (primary levels) := by
  induction levels with
  | zero => exact moves_current.bind fun _ => moves_throw _
  | succ levels ih => exact (moves_atom ih).nested

theorem moves_exprOver (least : Nat) : Moves (exprOver least) :=
  moves_operators (moves_primary _) _ _

theorem moves_expr : Moves expr := moves_exprOver 0

/-! ## Statements -/

theorem moves_constBinding : Moves constBinding :=
  (moves_expect _).bind fun _ => moves_ident.bind fun _ => (moves_expect _).bind fun _ =>
    moves_expr.bind fun _ => (moves_expect _).bind fun _ => moves_pure _

theorem moves_varBinding : Moves varBinding := by
  refine (moves_expect _).bind fun _ => moves_ident.bind fun x => moves_ifEat _ ?_ ?_
  · exact (moves_expr.map some).bind fun _ => (moves_expect _).bind fun _ => moves_pure _
  · exact (moves_pure none).bind fun _ => (moves_expect _).bind fun _ => moves_pure _

theorem beginsWithName_assignment : BeginsWithName assignment :=
  beginsWithName_ident fun _ => (moves_expect _).bind fun _ => moves_expr.bind fun _ =>
    (moves_expect _).bind fun _ => moves_pure _

theorem beginsWithName_callStmt : BeginsWithName callStmt :=
  (beginsWithName_call moves_expr).bind fun _ => (moves_expect _).bind fun _ => moves_pure _

theorem moves_returnStmt : Moves returnStmt :=
  (moves_expect _).bind fun _ => moves_expr.bind fun _ => (moves_expect _).bind fun _ =>
    moves_pure _

theorem moves_stmt : Moves stmt := by
  refine moves_get.bind fun c => ?_
  split
  · exact moves_constBinding.bind fun _ => moves_pure _
  · exact moves_varBinding.bind fun _ => moves_pure _
  · exact moves_returnStmt
  · split
    · exact beginsWithName_callStmt.moves
    · exact beginsWithName_assignment.moves
  · exact moves_unexpected _

/-! ## Functions -/

/-- The name is looked at before what stands behind it. -/
theorem param_eq (f : String) (ps : Params) :
    param f ps = (current >>= fun t => ident >>= fun x =>
      if ps.contains x then throw (.duplicateParam f x t.start)
      else do
        if ← eat .equals then
          let default ← expr
          return { ps with optional := ps.optional ++ [⟨x, default⟩] }
        else if ps.optional.isEmpty then return { ps with required := ps.required ++ [x] }
        else throw (.requiredAfterOptional f x t.start)) :=
  rfl

theorem moves_param (f : String) (ps : Params) : Moves (param f ps) := by
  rw [param_eq]
  refine moves_current.bind fun t => moves_ident.bind fun x => ?_
  split
  · exact moves_throw _
  · refine moves_ifEat _ (moves_expr.bind fun _ => moves_pure _) ?_
    split
    · exact moves_pure _
    · exact moves_throw _

theorem moves_params (f : String) (rounds : List Token) (ps : Params) :
    Moves (params f rounds ps) := by
  induction rounds generalizing ps with
  | nil => exact moves_unexpected _
  | cons token rounds ih =>
    exact (moves_param f ps).bind fun ps =>
      moves_ifEat _ (moves_pure _) (moves_ifEat _ (ih ps) (moves_unexpected _))

theorem moves_paramList (f : String) : Moves (paramList f) :=
  moves_ifEat _ (moves_pure _) (moves_rounds.bind fun rounds => moves_params f rounds {})

theorem moves_body (rounds : List Token) : Moves (body rounds) := by
  induction rounds with
  | nil => exact moves_unexpected _
  | cons token rounds ih =>
    exact moves_ifEat _ (moves_pure _) (moves_stmt.bind fun _ => ih.bind fun _ => moves_pure _)

theorem moves_function : Moves function :=
  (moves_expect _).bind fun _ => moves_ident.bind fun x => (moves_expect _).bind fun _ =>
    (moves_paramList x).bind fun _ => (moves_expect _).bind fun _ =>
      moves_rounds.bind fun rounds => (moves_body rounds).bind fun _ => moves_pure _

/-! ## Declarations -/

theorem moves_decl : Moves decl := by
  refine moves_current.bind fun t => ?_
  split
  · exact moves_constBinding.bind fun _ => moves_pure _
  · exact moves_varBinding.bind fun _ => moves_pure _
  · exact moves_function.map _
  · exact moves_unexpected _

theorem moves_decls (rounds : List Token) : Moves (decls rounds) := by
  induction rounds with
  | nil => exact moves_unexpected _
  | cons token rounds ih =>
    refine moves_current.bind fun t => ?_
    split
    · exact moves_pure _
    · exact moves_decl.bind fun _ => ih.bind fun _ => moves_pure _

theorem moves_program : Moves program :=
  moves_rounds.bind fun rounds => (moves_decls rounds).bind fun _ => moves_pure _

end Parse

end Scriptlet
