-- SUMMARY: What a reader returns and what it reports: one law for each step, and programs from their expressions.
import Scriptlet.Proofs.Parse.InStep

/-!
# What readers ensure

A reader that starts at a cursor as some condition says returns with a value and a cursor
as another one says, or reports a fault as a third one says. The laws say so of each part
that reading is made of. What the readers of statements and declarations do follows from
what is known of expressions.
-/
namespace Scriptlet

open Scriptlet.Action
open Grammar (operatorOver?)

/-- The token is a numeral that no number is read from. -/
def Token.Misread (t : Token) : Prop :=
  (t.kind = .integer ∧ Decimal.readInt64? (t.text.getD "").toList = none) ∨
    (t.kind = .float ∧ Decimal.readFloat? (t.text.getD "").toList = none)

namespace Parse

variable {α β : Type} {E : ParseError → Cursor → Prop} {x : Parse α} {P P' : Cursor → Prop}
  {Q Q' : α → Cursor → Prop} {R : β → Cursor → Prop}

/-- A reader has returned as `Q` says, or reports a fault where the cursor is as `E` says. -/
def EndsWith (E : ParseError → Cursor → Prop) (Q : α → Cursor → Prop) :
    Except ParseError α × Cursor → Prop
  | (.ok a, c) => Q a c
  | (.error e, c) => E e c

/-- From a cursor as `P` says, the reader returns as `Q` says or reports a fault as `E` says. -/
def Ensures (E : ParseError → Cursor → Prop) (P : Cursor → Prop) (x : Parse α)
    (Q : α → Cursor → Prop) : Prop :=
  ∀ c, P c → EndsWith E Q (x.runOn c)

namespace Ensures

/-! ## Steps -/

theorem bind {f : α → Parse β} (hx : Ensures E P x Q) (hf : ∀ a, Ensures E (Q a) (f a) R) :
    Ensures E P (x >>= f) R := by
  intro c hc
  have hout := hx c hc
  rcases hrun : x.runOn c with ⟨e | a, c₁⟩ <;> rw [hrun] at hout
  · rw [runOn_bind_error hrun]
    exact hout
  · rw [runOn_bind_ok hrun]
    exact hf a c₁ hout

theorem weaken (h : Ensures E P x Q) (hQ : ∀ a c, Q a c → Q' a c) : Ensures E P x Q' := by
  intro c hc
  have hout := h c hc
  generalize x.runOn c = r at hout ⊢
  rcases r with ⟨e | a, c₁⟩
  · exact hout
  · exact hQ a c₁ hout

theorem strengthen (h : Ensures E P x Q) (hP : ∀ c, P' c → P c) : Ensures E P' x Q :=
  fun c hc => h c (hP c hc)

/-- A condition that is not about the cursor. -/
theorem given {p : Prop} (h : p → Ensures E P x Q) : Ensures E (fun c => p ∧ P c) x Q :=
  fun c hc => h hc.1 c hc.2

theorem pure {a : α} (h : ∀ c, P c → Q a c) : Ensures E P (pure a) Q := h

theorem throw {e : ParseError} (he : ∀ c, P c → E e c) : Ensures E P (throw e : Parse α) Q := he

theorem unexpected {expected : Expected} (he : ∀ c, P c → E (c.unexpected expected) c) :
    Ensures E P (unexpected expected : Parse α) Q := he

theorem map {g : α → β} (hx : Ensures E P x Q) (h : ∀ a c, Q a c → R (g a) c) :
    Ensures E P (g <$> x) R := by
  rw [map_eq_pure_bind]
  exact hx.bind fun a => pure (h a)

/-- What is read depends on the cursor. -/
theorem get {f : Cursor → Parse α} (h : ∀ c, P c → Ensures E (· = c) (f c) Q) :
    Ensures E P (get >>= f) Q := fun c hc => h c hc c rfl

/-- What is read depends on the current token. -/
theorem current {f : Token → Parse α}
    (h : ∀ t, Ensures E (fun c => P c ∧ c.current = t) (f t) Q) :
    Ensures E P (current >>= f) Q := fun c hc => h c.current c ⟨hc, rfl⟩

/-- What is read depends on a token that the cursor stood before. -/
theorem seenCurrent {f : Token → Parse α}
    (h : ∀ t, (∃ c, P c ∧ c.current = t) → Ensures E P (f t) Q) :
    Ensures E P (Parse.current >>= f) Q := fun c hc => h c.current ⟨c, hc, rfl⟩ c hc

theorem anyCurrent {f : Token → Parse α} (h : ∀ t, Ensures E P (f t) Q) :
    Ensures E P (Parse.current >>= f) Q := current fun t => (h t).strengthen fun _ => And.left

theorem rounds {f : List Token → Parse α} (h : ∀ rs, Ensures E P (f rs) Q) :
    Ensures E P (rounds >>= f) Q := fun c hc => h (c.final :: c.rest) c hc

/-- What is read depends on the operator that the cursor stands before, if it does. -/
theorem operator? {least : Nat} {f : Option BinaryOp → Parse α}
    (h : ∀ op, Ensures E (fun c => P c ∧ operatorOver? least c.current.kind = op) (f op) Q) :
    Ensures E P (operator? least >>= f) Q := by
  intro c hc
  rw [runOn_bind_ok (runOn_operator? least c)]
  exact h _ c ⟨hc, rfl⟩

theorem advance (h : ∀ c, P c → P' c.advance) : Ensures E P advance fun _ => P' := h

theorem ifEat {kind : Token.Kind} {y : Parse α}
    (h : ∀ c, P c → c.current.kind = kind → P' c.advance) (hx : Ensures E P' x Q)
    (hy : Ensures E P y Q) : Ensures E P (do if ← eat kind then x else y) Q := by
  intro c hc
  rw [runOn_ifEat]
  split
  · exact hx _ (h c hc ‹_›)
  · exact hy c hc

theorem expect {kind : Token.Kind} (h : ∀ c, P c → c.current.kind = kind → P' c.advance)
    (he : ∀ c, P c → E (c.unexpected (.kind kind)) c) : Ensures E P (expect kind) fun _ => P' := by
  intro c hc
  rw [runOn_expect]
  split
  · exact h c hc ‹_›
  · exact he c hc

theorem ident {f : String → Parse α}
    (h : ∀ x, Ensures E (fun c' => ∃ c, P c ∧ c.current.name? = some x ∧ c.advance = c') (f x) Q)
    (he : ∀ c, P c → E (c.unexpected (.kind .identifier)) c) : Ensures E P (ident >>= f) Q := by
  intro c hc
  rw [runOn_bind, runOn_ident]
  cases hx : c.current.name? with
  | none => exact he c hc
  | some x => exact h x _ ⟨c, hc, hx, rfl⟩

theorem grow {below offset : Nat} {Q : Unit → Cursor → Prop}
    (h : ∀ c, P c → Q () { c with height := below + 1 })
    (he : ∀ c, P c → maxNesting ≤ below → E (.nestingTooDeep offset) c) :
    Ensures E P (grow below offset) Q := by
  intro c hc
  rw [runOn_grow]
  split
  · exact he c hc ‹_›
  · exact h c hc

theorem nested (hx : Ensures E P' x Q') (h : ∀ c, P c → P' { c with depth := c.depth + 1 })
    (h' : ∀ a c, Q' a c → Q a { c with depth := c.depth - 1 })
    (he : ∀ c, P c → maxNesting ≤ c.depth → E (.nestingTooDeep c.current.start) c)
    (hE : ∀ e c, E e c → E e { c with depth := c.depth - 1 }) :
    Ensures E P (nested x) Q := by
  intro c hc
  rw [runOn_nested]
  split
  · exact he c hc ‹_›
  · have hout := hx _ (h c hc)
    generalize x.runOn { c with depth := c.depth + 1 } = r at hout ⊢
    rcases r with ⟨e | a, c₁⟩
    · exact hE e c₁ hout
    · exact h' a c₁ hout

end Ensures

/-! ## Programs -/

/-- What is known of every cursor before a statement and of every name that was read, and what this
says about the faults that may be found there. -/
structure Lawful (E : ParseError → Cursor → Prop) (P : Cursor → Prop) (Named : String → Prop) : Prop where
  advance (c : Cursor) : P c → P c.advance
  named (c : Cursor) (x : String) : P c → c.current.name? = some x → Named x
  unexpected (expected : Expected) (c : Cursor) : P c → E (c.unexpected expected) c
  ofParam (f x : String) (c : Cursor) : Named f → P c → c.current.name? = some x →
    ∀ c', E (.duplicateParam f x c.current.start) c' ∧
      E (.requiredAfterOptional f x c.current.start) c'

/-- The reader keeps what is known of the cursor, or reports a fault as `E` says. -/
abbrev Maintains (E : ParseError → Cursor → Prop) (P : Cursor → Prop) (x : Parse α) : Prop :=
  Ensures E P x fun _ => P

namespace Lawful

variable {Named : String → Prop} (h : Lawful E P Named)

include h

theorem expect (kind : Token.Kind) : Maintains E P (expect kind) :=
  .expect (fun c hc _ => h.advance c hc) (h.unexpected _)

theorem ifEat (kind : Token.Kind) {y : Parse α} (hx : Ensures E P x Q) (hy : Ensures E P y Q) :
    Ensures E P (do if ← eat kind then x else y) Q :=
  .ifEat (fun c hc _ => h.advance c hc) hx hy

theorem ident {f : String → Parse α} (hf : ∀ x, Named x → Ensures E P (f x) Q) :
    Ensures E P (ident >>= f) Q := by
  refine .ident (fun x => ?_) (h.unexpected _)
  rintro _ ⟨c, hc, hx, rfl⟩
  exact hf x (h.named c x hc hx) _ (h.advance c hc)

theorem semicolon (hx : Maintains E P x) (f : α → β) :
    Maintains E P (x >>= fun a => Parse.expect .semicolon >>= fun _ => Pure.pure (f a)) :=
  hx.bind fun _ => (h.expect _).bind fun _ => .pure fun _ => id

variable (hexpr : Maintains E P expr) (hcall : Maintains E P (call expr))

include hexpr

theorem constBinding : Maintains E P constBinding :=
  (h.expect _).bind fun _ => h.ident fun _ _ => (h.expect _).bind fun _ => h.semicolon hexpr _

theorem varBinding : Maintains E P varBinding := by
  refine (h.expect _).bind fun _ => h.ident fun _ _ => h.ifEat _ ?_ ?_
  · exact h.semicolon (hexpr.map fun _ _ => id) _
  · exact (h.expect _).bind fun _ => .pure fun _ => id

theorem param {f : String} (hf : Named f) (ps : Params) : Maintains E P (param f ps) := by
  rw [param_eq]
  refine .current fun t => .ident (fun x => ?_) fun c hc => h.unexpected _ c hc.1
  rintro _ ⟨c, ⟨hc, rfl⟩, hx, rfl⟩
  have hfaults := h.ofParam f x c hf hc hx
  suffices hrest : Maintains E P _ from hrest _ (h.advance c hc)
  split
  · exact .throw fun c' _ => (hfaults c').1
  · refine h.ifEat _ (hexpr.bind fun _ => .pure fun _ => id) ?_
    split
    · exact .pure fun _ => id
    · exact .throw fun c' _ => (hfaults c').2

theorem params {f : String} (hf : Named f) (rs : List Token) (ps : Params) :
    Maintains E P (params f rs ps) := by
  induction rs generalizing ps with
  | nil => exact .unexpected (h.unexpected _)
  | cons t rs ih =>
    exact (h.param hexpr hf ps).bind fun ps => h.ifEat _ (.pure fun _ => id)
      (h.ifEat _ (ih ps) (.unexpected (h.unexpected _)))

theorem paramList {f : String} (hf : Named f) : Maintains E P (paramList f) :=
  h.ifEat _ (.pure fun _ => id) (.rounds fun rs => h.params hexpr hf rs {})

include hcall

theorem stmt : Maintains E P stmt := by
  rw [stmt_eq]
  refine Ensures.anyCurrent fun t => ?_
  split
  · exact (h.constBinding hexpr).map fun _ _ => id
  · exact (h.varBinding hexpr).map fun _ _ => id
  · exact (h.expect _).bind fun _ => h.semicolon hexpr _
  · refine .get fun c hc => .strengthen ?_ fun _ h => h ▸ hc
    split
    · exact h.semicolon hcall _
    · exact h.ident fun _ _ => (h.expect _).bind fun _ => h.semicolon hexpr _
  · exact .unexpected (h.unexpected _)

theorem body (rs : List Token) : Maintains E P (body rs) := by
  induction rs with
  | nil => exact .unexpected (h.unexpected _)
  | cons t rs ih =>
    exact h.ifEat _ (.pure fun _ => id)
      ((h.stmt hexpr hcall).bind fun _ => ih.bind fun _ => .pure fun _ => id)

theorem function : Maintains E P function :=
  (h.expect _).bind fun _ => h.ident fun _ hf => (h.expect _).bind fun _ =>
    (h.paramList hexpr hf).bind fun _ => (h.expect _).bind fun _ => .rounds fun rs =>
      (h.body hexpr hcall rs).bind fun _ => .pure fun _ => id

theorem decl : Maintains E P decl := by
  refine Ensures.anyCurrent fun t => ?_
  split
  · exact (h.constBinding hexpr).bind fun _ => .pure fun _ => id
  · exact (h.varBinding hexpr).bind fun _ => .pure fun _ => id
  · exact (h.function hexpr hcall).map fun _ _ => id
  · exact .unexpected (h.unexpected _)

theorem decls (rs : List Token) : Maintains E P (decls rs) := by
  induction rs with
  | nil => exact .unexpected (h.unexpected _)
  | cons t rs ih =>
    refine Ensures.anyCurrent fun t => ?_
    split
    · exact .pure fun _ => id
    · exact (h.decl hexpr hcall).bind fun _ => ih.bind fun _ => .pure fun _ => id

theorem program : Maintains E P program :=
  .rounds fun rs => (h.decls hexpr hcall rs).bind fun _ => .pure fun _ => id

end Lawful

/-! ## Expressions -/

/-- What is known of every cursor and of every name that was read, and what this says about the faults
that may be found there, those of expressions included. -/
structure LawfulExpr (E : ParseError → Cursor → Prop) (P : Cursor → Prop) (Named : String → Prop) :
    Prop extends Lawful E P Named where
  height (c : Cursor) (height : Nat) : P c → P { c with height }
  depth (c : Cursor) (depth : Nat) : P c → P { c with depth }
  faultDepth (e : ParseError) (c : Cursor) (depth : Nat) : E e c → E e { c with depth }
  number (c : Cursor) : P c → c.current.Misread →
    E (.numberOutOfRange (c.current.text.getD "") c.current.start) c
  nesting (c : Cursor) : P c → ∀ c', E (.nestingTooDeep c.current.start) c'

namespace LawfulExpr

variable {Named : String → Prop} (h : LawfulExpr E P Named)

include h

theorem setHeight (height : Nat) : Maintains E P (modify fun c => { c with height }) :=
  fun c hc => h.height c height hc

theorem grow {t : Token} (ht : ∃ c, P c ∧ c.current = t) (below : Nat) :
    Maintains E P (grow below t.start) := by
  obtain ⟨c, hc, rfl⟩ := ht
  exact .grow (fun c' hc' => h.height c' _ hc') fun c' _ _ => h.nesting c hc c'

theorem leaf (e : Expr) : Maintains E P (leaf e) :=
  .bind (.advance h.advance) fun _ => (h.setHeight 1).bind fun _ => .pure fun _ => id

theorem name : Maintains E P name :=
  h.ident fun _ _ => (h.setHeight 1).bind fun _ => .pure fun _ => id

/-- A numeral is read where one stands. -/
theorem numeral {γ : Type} {kind : Token.Kind} {read? : List Char → Option γ}
    (hmisread : ∀ t : Token, t.kind = kind → read? (t.text.getD "").toList = none → t.Misread)
    (make : γ → Expr) :
    Ensures E (fun c => P c ∧ c.current.kind = kind) (Parse.number read? make) fun _ => P := by
  refine .current fun t => ?_
  dsimp only
  split
  · exact (h.leaf _).strengthen fun _ hc => hc.1.1
  next hread =>
    refine .throw fun c hc => ?_
    obtain ⟨⟨hc, hkind⟩, rfl⟩ := hc
    exact h.number c hc (hmisread c.current hkind hread)

section
variable {expr primary : Parse Expr} {operand : Nat → Parse Expr}

theorem arguments (hexpr : Maintains E P expr) (rs : List Token) (highest : Nat) :
    Maintains E P (arguments expr rs highest) := by
  induction rs generalizing highest with
  | nil => exact .unexpected (h.unexpected _)
  | cons t rs ih =>
    refine hexpr.bind fun e => .get fun c hc => .strengthen (P := P) ?_ fun _ heq => heq ▸ hc
    exact h.ifEat _ (.pure fun _ => id) (h.ifEat _ ((ih _).bind fun _ => .pure fun _ => id)
      (.unexpected (h.unexpected _)))

theorem call (hexpr : Maintains E P expr) : Maintains E P (call expr) := by
  refine Ensures.seenCurrent fun t ht => h.ident fun x _ => (h.expect _).bind fun _ => h.ifEat _ ?_
    (.rounds fun rs => (h.arguments hexpr rs 0).bind fun r => ?_)
  · exact (h.grow ht 0).bind fun _ => .pure fun _ => id
  · exact (h.grow ht r.2).bind fun _ => .pure fun _ => id

theorem signed (op : UnaryOp) (hprimary : Maintains E P primary) :
    Maintains E P (signed op primary) := by
  refine Ensures.seenCurrent fun t ht => .bind (.advance h.advance) fun _ => hprimary.bind fun e =>
    .get fun c hc => .strengthen (P := P) ?_ fun _ heq => heq ▸ hc
  exact (h.grow ht c.height).bind fun _ => .pure fun _ => id

theorem chain (hoperand : ∀ least, Maintains E P (operand least)) (least : Nat) (rs : List Token)
    (lhs : Expr) : Maintains E P (chain operand least rs lhs) := by
  induction rs generalizing lhs with
  | nil => exact .pure fun _ => id
  | cons t rs ih =>
    refine .operator? fun op => .strengthen (P := P) ?_ fun _ => And.left
    cases op with
    | none => exact .pure fun _ => id
    | some op =>
      refine Ensures.seenCurrent fun t ht => .get fun c hc => .strengthen (P := P) ?_ fun _ heq => heq ▸ hc
      refine .bind (.advance h.advance) fun _ => (hoperand _).bind fun rhs => .get fun c₁ hc₁ =>
        .strengthen (P := P) ?_ fun _ heq => heq ▸ hc₁
      exact (h.grow ht _).bind fun _ => ih _

theorem operators (hprimary : Maintains E P primary) (levels least : Nat) :
    Maintains E P (operators primary levels least) := by
  induction levels generalizing least with
  | zero => exact hprimary
  | succ levels ih =>
    exact hprimary.bind fun lhs => .rounds fun rs => h.chain ih least rs lhs

theorem parenthesized (hexpr : Maintains E P expr) : Maintains E P (parenthesized expr) :=
  .bind (.advance h.advance) fun _ => hexpr.bind fun _ => (h.expect _).bind fun _ =>
    .pure fun _ => id

theorem atom (hprimary : Maintains E P primary) : Maintains E P (atom primary) := by
  have hexpr := h.operators hprimary operatorLevels 0
  rw [atom_eq]
  refine .current fun t => ?_
  split
  · exact (h.numeral (fun _ hk hread => .inl ⟨hk, hread⟩) _).strengthen fun c hc =>
      ⟨hc.1, hc.2 ▸ ‹t.kind = _›⟩
  · exact (h.numeral (fun _ hk hread => .inr ⟨hk, hread⟩) _).strengthen fun c hc =>
      ⟨hc.1, hc.2 ▸ ‹t.kind = _›⟩
  · exact (h.leaf _).strengthen fun _ => And.left
  · exact (h.leaf _).strengthen fun _ => And.left
  · refine .get fun c hc => .strengthen (P := P) ?_ fun _ heq => heq ▸ hc.1
    split
    · exact h.call hexpr
    · exact h.name
  · exact (h.signed _ hprimary).strengthen fun _ => And.left
  · exact (h.signed _ hprimary).strengthen fun _ => And.left
  · exact (h.parenthesized hexpr).strengthen fun _ => And.left
  · exact .unexpected fun c hc => h.unexpected _ c hc.1

end

theorem primary (levels : Nat) : Maintains E P (primary levels) := by
  induction levels with
  | zero => exact .current fun t => .throw fun c hc => hc.2 ▸ h.nesting c hc.1 c
  | succ levels ih =>
    exact .nested (h.atom ih) (fun c hc => h.depth c _ hc) (fun _ c hc => h.depth c _ hc)
      (fun c hc _ => h.nesting c hc c) fun e c he => h.faultDepth e c _ he

theorem expr : Maintains E P expr := h.operators (h.primary _) _ _

theorem program : Maintains E P program := h.toLawful.program h.expr (h.call h.expr)

end LawfulExpr

end Parse

end Scriptlet
