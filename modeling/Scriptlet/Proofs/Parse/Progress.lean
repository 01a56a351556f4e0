-- SUMMARY: Statements and declarations consume tokens, and rounds of loops do, also where the last token repeats for ever.
import Scriptlet.Proofs.Parse.Moves

/-!
# Progress

Behind all tokens a cursor sees the last one over and over, and consuming it takes it
nowhere. Then the number of tokens left is no measure. But no statement and no declaration
is made of one token alone, and neither is anything that begins with an operator, a comma
or a parenthesis. So where a loop goes on, or a statement or declaration was read, there
are fewer tokens left than before.
-/
namespace Scriptlet

open Scriptlet.Action
open Grammar (operatorOver?)

/-- Is a token of the kind an expression by itself? -/
def Token.Kind.isLeaf : Token.Kind → Bool
  | .integer | .float | .string | .null | .identifier => true
  | _ => false

theorem Token.Kind.isLeaf_of_operatorOver? {kind : Kind} {least : Nat} {op : BinaryOp}
    (h : operatorOver? least kind = some op) : kind.isLeaf = false := by
  obtain ⟨m, rfl, -⟩ | ⟨a, rfl, -⟩ := Grammar.operatorOver?_eq_some h
  · cases m <;> rfl
  · cases a <;> rfl

namespace Cursor

variable {c c₁ : Cursor}

/-- All tokens were consumed, and the one that is seen over and over is of the kind. -/
structure Exhausted (kind : Token.Kind) (c : Cursor) : Prop where
  rest : c.rest = []
  final : c.final.kind = kind

theorem exhausted (h : c.rest = []) : c.Exhausted c.current.kind := by
  simp [current, h, Exhausted.mk]

namespace Exhausted

variable {kind : Token.Kind}

theorem kind_current (h : c.Exhausted kind) : c.current.kind = kind := by
  simp [current, h.rest, h.final]

theorem onward (h : c.Exhausted kind) (hc : c.Onward c₁) : c₁.Exhausted kind := by
  have hrest := hc.rest
  rw [h.rest, List.suffix_nil] at hrest
  exact ⟨hrest, hc.final ▸ h.final⟩

theorem advance (h : c.Exhausted kind) : c.advance.Exhausted kind :=
  h.onward (.advance c)

theorem withDepth (h : c.Exhausted kind) (depth : Nat) : { c with depth }.Exhausted kind :=
  ⟨h.rest, h.final⟩

end Exhausted

theorem length_rest_advance (h : c.rest ≠ []) : c.advance.rest.length < c.rest.length := by
  simp only [advance, List.length_tail]
  exact Nat.sub_one_lt (mt List.length_eq_zero_iff.mp h)

end Cursor

namespace Parse

variable {α β : Type} {x : Parse α} {kind : Token.Kind}

/-! ## Readers that refuse a token behind all others -/

/-- The reader does not return where a token of the kind is seen over and over. -/
def Refuses (kind : Token.Kind) (x : Parse α) : Prop :=
  ∀ c a c', c.Exhausted kind → x.runOn c ≠ (.ok a, c')

theorem Refuses.bind (hx : Refuses kind x) (f : α → Parse β) : Refuses kind (x >>= f) := by
  intro c b c' hc h
  obtain ⟨a, c₁, ha, -⟩ := runOn_bind_eq_ok.mp h
  exact hx c a c₁ hc ha

/-- Whatever kind of token is expected, it is what is seen next as well. -/
theorem refuses_expect_bind {k : Token.Kind} {f : Unit → Parse α} (h : Refuses k (f ())) :
    Refuses kind (expect k >>= f) := by
  intro c a c' hc hrun
  obtain ⟨hk, hmore⟩ := runOn_expect_bind_eq_ok.mp hrun
  obtain rfl : kind = k := hc.kind_current.symm.trans hk
  exact h c.advance a c' hc.advance hmore

theorem refuses_ident_bind {f : String → Parse α} (h : ∀ x, Refuses .identifier (f x)) :
    Refuses kind (ident >>= f) := by
  intro c a c' hc hrun
  obtain ⟨x, hk, -, hmore⟩ := runOn_ident_bind_eq_ok.mp hrun
  obtain rfl : kind = .identifier := hc.kind_current.symm.trans hk
  exact h x c.advance a c' hc.advance hmore

theorem refuses_expect {k : Token.Kind} (hk : kind ≠ k) : Refuses kind (expect k) := by
  intro c a c' hc h
  rw [runOn_expect, if_neg (hc.kind_current ▸ hk)] at h
  cases h

theorem refuses_ident (hk : kind ≠ .identifier) : Refuses kind ident := by
  intro c a c' hc h
  have hname : c.current.name? = none := if_neg (hc.kind_current ▸ hk)
  rw [runOn_ident, hname] at h
  cases h

/-! ## Expressions -/

section
variable {primary : Parse Expr}

theorem refuses_operators (h : Refuses kind primary) (levels least : Nat) :
    Refuses kind (operators primary levels least) := by
  cases levels with
  | zero => exact h
  | succ levels => exact h.bind _

theorem refuses_atom (hkind : kind.isLeaf = false) (h : Refuses kind primary) :
    Refuses kind (atom primary) := by
  intro c e c' hc hrun
  rw [runOn_atom, hc.kind_current] at hrun
  cases kind
  case integer | float | string | null | identifier => cases hkind
  case plus | minus =>
    obtain ⟨e₁, c₁, he, -⟩ := runOn_signed_eq_ok.mp hrun
    exact h _ e₁ c₁ hc.advance he
  case openParen =>
    obtain ⟨c₁, he, -⟩ := runOn_parenthesized_eq_ok.mp hrun
    exact refuses_operators h operatorLevels 0 _ e c₁ hc.advance he
  all_goals cases hrun

end

/-- Signs and parentheses are opened until they are nested too deep; anything else that is no leaf
is refused at once. -/
theorem refuses_primary (hkind : kind.isLeaf = false) (levels : Nat) :
    Refuses kind (primary levels) := by
  induction levels with
  | zero =>
    intro c e c' _ h
    cases h
  | succ levels ih =>
    intro c e c' hc h
    obtain ⟨-, c₁, hatom, -⟩ := runOn_primary_eq_ok.mp h
    exact refuses_atom hkind ih _ e c₁ (hc.withDepth _) hatom

theorem refuses_expr (hkind : kind.isLeaf = false) : Refuses kind expr :=
  refuses_operators (refuses_primary hkind _) _ _

/-! ## Rounds of loops -/

/-- Behind a comma a loop goes on with fewer tokens left, if what it reads in each round begins with
no comma. -/
theorem length_lt_of_comma {c c₁ : Cursor} {a : α} (hmoves : Moves x) (hx : Refuses .comma x)
    (h : x.runOn c = (.ok a, c₁)) (hcomma : c₁.current.kind = .comma) :
    c₁.advance.rest.length < c.rest.length := by
  have honward := hmoves.onward h
  by_cases hrest₁ : c₁.rest = []
  · rw [Cursor.advance, hrest₁]
    refine List.length_pos_iff.mpr fun hrest => ?_
    have hc := Cursor.exhausted hrest
    rw [← (hc.onward honward).kind_current, hcomma] at hc
    exact hx c a c₁ hc h
  · exact (Cursor.length_rest_advance hrest₁).trans_le honward.rest.length_le

/-- Behind an operator and its right operand there are fewer tokens left. -/
theorem length_lt_of_operator {operand : Parse Expr} {c c₁ : Cursor} {e : Expr}
    (hmoves : Moves operand) (hoperand : Refuses c.current.kind operand)
    (h : operand.runOn c.advance = (.ok e, c₁)) : c₁.rest.length < c.rest.length := by
  refine (hmoves.onward h).rest.length_le.trans_lt (Cursor.length_rest_advance fun hrest => ?_)
  exact hoperand _ e c₁ (Cursor.exhausted hrest).advance h

/-! ## Statements and declarations -/

/-- Where the reader returns, the current token was consumed. -/
def Consumes (x : Parse α) : Prop := ∀ c a c', x.runOn c = (.ok a, c') → c.advance.Onward c'

/-- Where the reader returns, there are fewer tokens left. -/
def Progresses (x : Parse α) : Prop :=
  ∀ c a c', x.runOn c = (.ok a, c') → c'.rest.length < c.rest.length

theorem Consumes.progresses (hx : Consumes x) (h : ∀ kind, Refuses kind x) : Progresses x := by
  intro c a c' hrun
  refine (hx c a c' hrun).rest.length_le.trans_lt (Cursor.length_rest_advance fun hrest => ?_)
  exact h _ c a c' (Cursor.exhausted hrest) hrun

theorem Progresses.map (hx : Progresses x) (g : α → β) : Progresses (g <$> x) := by
  intro c b c' h
  obtain ⟨a, ha, -⟩ := runOn_map_eq_ok.mp h
  exact hx c a c' ha

theorem progresses_expect_bind {k : Token.Kind} {f : Unit → Parse α} (hmoves : Moves (f ()))
    (hf : Refuses k (f ())) : Progresses (expect k >>= f) := by
  refine Consumes.progresses (fun c a c' h => ?_) fun _ => refuses_expect_bind hf
  obtain ⟨-, hmore⟩ := runOn_expect_bind_eq_ok.mp h
  exact hmoves.onward hmore

theorem BeginsWithName.progresses (hx : BeginsWithName x) (h : ∀ kind, Refuses kind x) :
    Progresses x := by
  refine Consumes.progresses (fun c a c' hrun => ?_) h
  cases hname : c.current.name? with
  | none =>
    rw [hx.refuses c hname] at hrun
    cases hrun
  | some name =>
    have honward := hx.consumes c (by simp [hname])
    rwa [hrun] at honward

theorem progresses_constBinding : Progresses constBinding :=
  progresses_expect_bind
    (moves_ident.bind fun _ => (moves_expect _).bind fun _ => moves_expr.bind fun _ =>
      (moves_expect _).bind fun _ => moves_pure _)
    ((refuses_ident (by decide)).bind _)

theorem progresses_varBinding : Progresses varBinding := by
  refine progresses_expect_bind (moves_ident.bind fun x => moves_ifEat _ ?_ ?_)
    ((refuses_ident (by decide)).bind _)
  · exact (moves_expr.map some).bind fun _ => (moves_expect _).bind fun _ => moves_pure _
  · exact (moves_pure none).bind fun _ => (moves_expect _).bind fun _ => moves_pure _

theorem progresses_returnStmt : Progresses returnStmt :=
  progresses_expect_bind
    (moves_expr.bind fun _ => (moves_expect _).bind fun _ => moves_pure _)
    ((refuses_expr (by decide)).bind _)

theorem progresses_assignment : Progresses assignment :=
  beginsWithName_assignment.progresses fun _ =>
    refuses_ident_bind fun _ => (refuses_expect (by decide)).bind _

theorem refuses_param (f : String) (ps : Params) (hk : kind ≠ .identifier) :
    Refuses kind (param f ps) := by
  rw [param_eq]
  intro c a c' hc h
  rw [runOn_bind_ok (runOn_current c)] at h
  exact (refuses_ident hk).bind _ c a c' hc h

theorem refuses_call (expr : Parse Expr) : Refuses kind (call expr) := by
  intro c e c' hc h
  obtain ⟨x, hk, -, hparen, -⟩ := runOn_call_eq_ok.mp h
  rw [hc.advance.kind_current, ← hc.kind_current, hk] at hparen
  cases hparen

theorem progresses_callStmt : Progresses callStmt :=
  beginsWithName_callStmt.progresses fun _ => (refuses_call expr).bind _

theorem progresses_function : Progresses function :=
  progresses_expect_bind
    (moves_ident.bind fun x => (moves_expect _).bind fun _ => (moves_paramList x).bind fun _ =>
      (moves_expect _).bind fun _ => moves_rounds.bind fun rounds => (moves_body rounds).bind fun _ =>
        moves_pure _)
    ((refuses_ident (by decide)).bind _)

theorem progresses_stmt : Progresses stmt := by
  intro c s c' h
  rw [runOn_stmt] at h
  split at h
  · exact progresses_constBinding.map _ c s c' h
  · exact progresses_varBinding.map _ c s c' h
  · exact progresses_returnStmt c s c' h
  · split at h
    · exact progresses_callStmt c s c' h
    · exact progresses_assignment c s c' h
  · cases h

theorem progresses_decl : Progresses decl := by
  intro c d c' h
  rw [runOn_decl] at h
  split at h
  · exact progresses_constBinding.map _ c d c' h
  · exact progresses_varBinding.map _ c d c' h
  · exact progresses_function.map _ c d c' h
  · cases h

end Parse

end Scriptlet
