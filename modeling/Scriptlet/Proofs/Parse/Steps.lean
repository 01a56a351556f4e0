-- SUMMARY: When each step of a parser returns, and the cursor it leaves then.
import Scriptlet.Parse.Program
import Scriptlet.Proofs.Action
import Scriptlet.Proofs.Grammar.Follow

/-!
# Steps of a parser

For each part that reading is made of, what it returns and the cursor it leaves.
A part that may fail is described by when it returns. Proofs about reading cite
these and do not open the definitions.
-/
namespace Scriptlet

/-- The name that a token is. A token without a text is none. -/
def Token.name? (t : Token) : Option String := if t.kind = .identifier then t.text else none

theorem Token.name?_eq_some {t : Token} {x : String} :
    t.name? = some x ↔ t.kind = .identifier ∧ t.text = some x := by
  rw [name?]
  split <;> simp [*]

theorem Cursor.unexpected_ne_nestingTooDeep {c : Cursor} {expected : Expected} {offset : Nat} :
    c.unexpected expected ≠ .nestingTooDeep offset := by
  unfold unexpected
  split <;> nofun

namespace Parse

open Scriptlet.Action
open Grammar (operatorOver?)

variable {α : Type} {c c' : Cursor}

/-! ## Tokens -/

@[simp] theorem runOn_current (c : Cursor) : current.runOn c = (.ok c.current, c) := rfl

@[simp] theorem runOn_advance (c : Cursor) : advance.runOn c = (.ok (), c.advance) := rfl

@[simp] theorem runOn_unexpected (expected : Expected) (c : Cursor) :
    (unexpected expected : Parse α).runOn c = (.error (c.unexpected expected), c) := rfl

@[simp] theorem runOn_rounds (c : Cursor) : rounds.runOn c = (.ok (c.final :: c.rest), c) := rfl

theorem runOn_eat (kind : Token.Kind) (c : Cursor) :
    (eat kind).runOn c = if c.current.kind = kind then (.ok true, c.advance) else (.ok false, c) := by
  simp only [eat, runOn_bind, runOn_current]
  split <;> rfl

theorem runOn_ifEat (kind : Token.Kind) (x y : Parse α) (c : Cursor) :
    (do if ← eat kind then x else y : Parse α).runOn c =
      if c.current.kind = kind then x.runOn c.advance else y.runOn c := by
  rw [runOn_bind, runOn_eat]
  by_cases h : c.current.kind = kind
  · rw [if_pos h, if_pos h]
    rfl
  · rw [if_neg h, if_neg h]
    rfl

theorem runOn_expect (kind : Token.Kind) (c : Cursor) :
    (expect kind).runOn c =
      if c.current.kind = kind then (.ok (), c.advance)
      else (.error (c.unexpected (.kind kind)), c) := by
  rw [expect, runOn_bind, runOn_eat]
  by_cases h : c.current.kind = kind
  · rw [if_pos h, if_pos h]
    rfl
  · rw [if_neg h, if_neg h]
    rfl

theorem runOn_expect_bind_eq_ok {kind : Token.Kind} {f : Unit → Parse α} {a : α} :
    (expect kind >>= f).runOn c = (.ok a, c') ↔
      c.current.kind = kind ∧ (f ()).runOn c.advance = (.ok a, c') := by
  rw [runOn_bind, runOn_expect]
  by_cases h : c.current.kind = kind <;> simp [h]

theorem runOn_ident (c : Cursor) :
    ident.runOn c = match c.current.name? with
      | some x => (.ok x, c.advance)
      | none => (.error (c.unexpected (.kind .identifier)), c) := by
  rw [ident, runOn_bind, runOn_current]
  rcases c.current with ⟨kind, text, start, stop⟩
  cases kind <;> cases text <;> rfl

theorem runOn_ident_bind_eq_ok {f : String → Parse α} {a : α} :
    (ident >>= f).runOn c = (.ok a, c') ↔
      ∃ x, c.current.kind = .identifier ∧ c.current.text = some x ∧
        (f x).runOn c.advance = (.ok a, c') := by
  rw [runOn_bind, runOn_ident]
  cases hx : c.current.name? with
  | none =>
    simp only [Prod.mk.injEq, reduceCtorEq, false_and, false_iff, not_exists]
    rintro x ⟨hk, ht, -⟩
    rw [Token.name?_eq_some.mpr ⟨hk, ht⟩] at hx
    cases hx
  | some x =>
    obtain ⟨hk, ht⟩ := Token.name?_eq_some.mp hx
    simp [hk, ht]

/-! ## Heights and nesting -/

theorem runOn_grow (below offset : Nat) (c : Cursor) :
    (grow below offset).runOn c =
      if maxNesting ≤ below then (.error (.nestingTooDeep offset), c)
      else (.ok (), { c with height := below + 1 }) := by
  rw [grow]
  split <;> rfl

theorem runOn_grow_bind_eq_ok {below offset : Nat} {f : Unit → Parse α} {a : α} :
    (grow below offset >>= f).runOn c = (.ok a, c') ↔
      below < maxNesting ∧ (f ()).runOn { c with height := below + 1 } = (.ok a, c') := by
  rw [runOn_bind, runOn_grow]
  by_cases h : maxNesting ≤ below
  · simp [h, Nat.not_lt_of_le h]
  · simp [h, Nat.lt_of_not_le h]

theorem runOn_nested (x : Parse α) (c : Cursor) :
    (nested x).runOn c =
      if maxNesting ≤ c.depth then (.error (.nestingTooDeep c.current.start), c)
      else
        let (result, c') := x.runOn { c with depth := c.depth + 1 }
        (result, { c' with depth := c'.depth - 1 }) := by
  rw [nested, runOn_bind_ok (runOn_get c)]
  split <;> rfl

theorem runOn_nested_eq_ok {x : Parse α} {a : α} :
    (nested x).runOn c = (.ok a, c') ↔
      c.depth < maxNesting ∧ ∃ c₁, x.runOn { c with depth := c.depth + 1 } = (.ok a, c₁) ∧
        { c₁ with depth := c₁.depth - 1 } = c' := by
  rw [runOn_nested]
  by_cases h : maxNesting ≤ c.depth
  · simp [h, Nat.not_lt_of_le h]
  · rw [if_neg h]
    rcases hx : x.runOn { c with depth := c.depth + 1 } with ⟨result, c₁⟩
    simp only [Nat.lt_of_not_le h, true_and, Prod.mk.injEq]
    constructor
    · rintro ⟨rfl, rfl⟩
      exact ⟨_, ⟨rfl, rfl⟩, rfl⟩
    · rintro ⟨_, ⟨rfl, rfl⟩, rfl⟩
      exact ⟨rfl, rfl⟩

/-! ## Leaves -/

@[simp] theorem runOn_leaf (e : Expr) (c : Cursor) :
    (leaf e).runOn c = (.ok e, { c.advance with height := 1 }) := rfl

theorem runOn_name_eq_ok {e : Expr} :
    name.runOn c = (.ok e, c') ↔
      ∃ x, c.current.kind = .identifier ∧ c.current.text = some x ∧ .name x = e ∧
        { c.advance with height := 1 } = c' := by
  simp only [name, runOn_ident_bind_eq_ok, runOn_bind_ok (runOn_modify _ _), runOn_pure,
    Prod.mk.injEq, Except.ok.injEq]

theorem runOn_number_eq_ok {α : Type} {read? : List Char → Option α} {make : α → Expr} {e : Expr} :
    (number read? make).runOn c = (.ok e, c') ↔
      ∃ a, read? (c.current.text.getD "").toList = some a ∧ make a = e ∧
        { c.advance with height := 1 } = c' := by
  simp only [number, runOn_bind, runOn_current]
  split <;> simp [*]

/-! ## Calls -/

theorem runOn_arguments_eq_ok {expr : Parse Expr} {token : Token} {rounds : List Token}
    {highest height : Nat} {es : List Expr} :
    (arguments expr (token :: rounds) highest).runOn c = (.ok (es, height), c') ↔
      ∃ e c₁, expr.runOn c = (.ok e, c₁) ∧
        (c₁.current.kind = .closeParen ∧ [e] = es ∧ max highest c₁.height = height ∧
            c₁.advance = c' ∨
          c₁.current.kind = .comma ∧ ∃ es', e :: es' = es ∧
            (arguments expr rounds (max highest c₁.height)).runOn c₁.advance =
              (.ok (es', height), c')) := by
  simp only [arguments, runOn_bind_eq_ok (x := expr), runOn_bind_ok (runOn_get _), runOn_ifEat]
  refine exists_congr fun e => exists_congr fun c₁ => and_congr_right fun _ => ?_
  by_cases hclose : c₁.current.kind = .closeParen
  · simp [hclose, and_assoc]
  · rw [if_neg hclose]
    by_cases hcomma : c₁.current.kind = .comma
    · rw [if_pos hcomma]
      simp only [hcomma, reduceCtorEq, false_and, false_or, true_and, runOn_bind_eq_ok,
        runOn_pure]
      constructor
      · rintro ⟨⟨es', height⟩, c₂, h, heq⟩
        cases heq
        exact ⟨es', rfl, h⟩
      · rintro ⟨es', rfl, h⟩
        exact ⟨_, _, h, rfl⟩
    · rw [if_neg hcomma]
      simp [hclose, hcomma]

theorem runOn_call_eq_ok {expr : Parse Expr} {e : Expr} :
    (call expr).runOn c = (.ok e, c') ↔
      ∃ x, c.current.kind = .identifier ∧ c.current.text = some x ∧
        c.advance.current.kind = .openParen ∧
        (c.advance.advance.current.kind = .closeParen ∧ .call (.name x) [] = e ∧
            { c.advance.advance.advance with height := 1 } = c' ∨
          c.advance.advance.current.kind ≠ .closeParen ∧ ∃ es height c₁,
            (arguments expr (c.advance.advance.final :: c.advance.advance.rest) 0).runOn
              c.advance.advance = (.ok (es, height), c₁) ∧
            height < maxNesting ∧ .call (.name x) es = e ∧
              { c₁ with height := height + 1 } = c') := by
  simp only [call, runOn_bind_ok (runOn_current _), runOn_ident_bind_eq_ok,
    runOn_expect_bind_eq_ok, runOn_ifEat, runOn_bind_ok (runOn_rounds _), pure_bind]
  refine exists_congr fun x => and_congr_right fun _ => and_congr_right fun _ =>
    and_congr_right fun _ => ?_
  by_cases hclose : c.advance.advance.current.kind = .closeParen
  · rw [if_pos hclose]
    simp only [runOn_grow_bind_eq_ok, runOn_pure]
    simp [hclose, maxNesting]
  · rw [if_neg hclose]
    simp only [hclose, false_and, false_or, ne_eq, not_false_eq_true, true_and,
      runOn_bind_eq_ok (x := arguments _ _ _), runOn_grow_bind_eq_ok, runOn_pure]
    simp

/-! ## Operators -/

theorem runOn_signed_eq_ok {op : UnaryOp} {operand : Parse Expr} {e : Expr} :
    (signed op operand).runOn c = (.ok e, c') ↔
      ∃ e₁ c₁, operand.runOn c.advance = (.ok e₁, c₁) ∧ c₁.height < maxNesting ∧
        .unary op e₁ = e ∧ { c₁ with height := c₁.height + 1 } = c' := by
  simp only [signed, runOn_bind_ok (runOn_current _), runOn_bind_ok (runOn_advance _),
    runOn_bind_eq_ok (x := operand), runOn_bind_ok (runOn_get _), runOn_grow_bind_eq_ok,
    runOn_pure, Prod.mk.injEq, Except.ok.injEq]

theorem runOn_operator? (least : Nat) (c : Cursor) :
    (operator? least).runOn c = (.ok (operatorOver? least c.current.kind), c) := by
  simp only [operator?, operatorOver?, runOn_bind, runOn_current]
  cases c.current.kind.binaryOp? with
  | none => rfl
  | some op => by_cases h : op.bindingPower.1 < least <;> simp [h, Option.filter]

section
variable {operand : Nat → Parse Expr} {least : Nat}

theorem runOn_chain_of_none (h : operatorOver? least c.current.kind = none)
    (rounds : List Token) (lhs : Expr) :
    (chain operand least rounds lhs).runOn c = (.ok lhs, c) := by
  cases rounds with
  | nil => rfl
  | cons token rounds => rw [chain, runOn_bind_ok (runOn_operator? least c), h]; rfl

theorem runOn_chain_eq_ok {op : BinaryOp} (h : operatorOver? least c.current.kind = some op)
    {token : Token} {rounds : List Token} {lhs e : Expr} :
    (chain operand least (token :: rounds) lhs).runOn c = (.ok e, c') ↔
      ∃ rhs c₁, (operand op.bindingPower.2).runOn c.advance = (.ok rhs, c₁) ∧
        max c.height c₁.height < maxNesting ∧
        (chain operand least rounds (.binary op lhs rhs)).runOn
          { c₁ with height := max c.height c₁.height + 1 } = (.ok e, c') := by
  rw [chain, runOn_bind_ok (runOn_operator? least c), h]
  simp only [runOn_bind_ok (runOn_current _), runOn_bind_ok (runOn_get _),
    runOn_bind_ok (runOn_advance _), runOn_bind_eq_ok (x := operand _), runOn_grow_bind_eq_ok]

end

theorem runOn_operators_eq_ok {primary : Parse Expr} {levels least : Nat} {e : Expr} :
    (operators primary (levels + 1) least).runOn c = (.ok e, c') ↔
      ∃ lhs c₁, primary.runOn c = (.ok lhs, c₁) ∧
        (chain (operators primary levels) least (c₁.final :: c₁.rest) lhs).runOn c₁ =
          (.ok e, c') := by
  simp only [operators, runOn_bind_eq_ok (x := primary), runOn_bind_ok (runOn_rounds _)]

/-! ## Primary expressions -/

theorem runOn_atom (primary : Parse Expr) (c : Cursor) :
    (atom primary).runOn c = match c.current.kind with
      | .integer => (number Decimal.readInt64? .int).runOn c
      | .float => (number Decimal.readFloat? .float).runOn c
      | .string => (leaf (.string (c.current.text.getD ""))).runOn c
      | .null => (leaf .null).runOn c
      | .identifier =>
        if c.next.kind = .openParen then (call (operators primary operatorLevels 0)).runOn c
        else name.runOn c
      | .plus => (signed .plus primary).runOn c
      | .minus => (signed .minus primary).runOn c
      | .openParen => (parenthesized (operators primary operatorLevels 0)).runOn c
      | _ => (.error (c.unexpected .expression), c) := by
  rw [atom, runOn_bind_ok (runOn_get c)]
  cases hk : c.current.kind <;> try rfl
  simp only []
  split <;> rfl

theorem runOn_parenthesized_eq_ok {expr : Parse Expr} {e : Expr} :
    (parenthesized expr).runOn c = (.ok e, c') ↔
      ∃ c₁, expr.runOn c.advance = (.ok e, c₁) ∧ c₁.current.kind = .closeParen ∧
        c₁.advance = c' := by
  simp only [parenthesized, runOn_bind_ok (runOn_advance _), runOn_bind_eq_ok (x := expr),
    runOn_expect_bind_eq_ok, runOn_pure, Prod.mk.injEq, Except.ok.injEq]
  constructor
  · rintro ⟨_, c₁, h, hclose, rfl, rfl⟩
    exact ⟨c₁, h, hclose, rfl⟩
  · rintro ⟨c₁, h, hclose, rfl⟩
    exact ⟨e, c₁, h, hclose, rfl, rfl⟩

theorem runOn_primary_eq_ok {levels : Nat} {e : Expr} :
    (primary (levels + 1)).runOn c = (.ok e, c') ↔
      c.depth < maxNesting ∧ ∃ c₁,
        (atom (primary levels)).runOn { c with depth := c.depth + 1 } = (.ok e, c₁) ∧
          { c₁ with depth := c₁.depth - 1 } = c' := by
  rw [primary, runOn_nested_eq_ok]

/-! ## Statements -/

/-- Reading an expression and the semicolon behind it. -/
theorem runOn_expr_semicolon_eq_ok {f : Expr → α} {a : α} :
    (expr >>= fun e => expect .semicolon >>= fun _ => pure (f e)).runOn c = (.ok a, c') ↔
      ∃ e c₁, expr.runOn c = (.ok e, c₁) ∧ c₁.current.kind = .semicolon ∧ f e = a ∧
        c₁.advance = c' := by
  simp only [runOn_bind_eq_ok (x := expr), runOn_expect_bind_eq_ok, runOn_pure, Prod.mk.injEq,
    Except.ok.injEq]

theorem runOn_constBinding_eq_ok {b : String × Expr} :
    constBinding.runOn c = (.ok b, c') ↔
      c.current.kind = .constWord ∧ ∃ x, c.advance.current.kind = .identifier ∧
        c.advance.current.text = some x ∧ c.advance.advance.current.kind = .equals ∧
        ∃ e c₁, expr.runOn c.advance.advance.advance = (.ok e, c₁) ∧
          c₁.current.kind = .semicolon ∧ (x, e) = b ∧ c₁.advance = c' := by
  simp only [constBinding, runOn_expect_bind_eq_ok, runOn_ident_bind_eq_ok,
    runOn_expr_semicolon_eq_ok]

theorem runOn_varBinding_eq_ok {b : String × Option Expr} :
    varBinding.runOn c = (.ok b, c') ↔
      c.current.kind = .varWord ∧ ∃ x, c.advance.current.kind = .identifier ∧
        c.advance.current.text = some x ∧
        (c.advance.advance.current.kind = .equals ∧ (∃ e c₁,
            expr.runOn c.advance.advance.advance = (.ok e, c₁) ∧
            c₁.current.kind = .semicolon ∧ (x, some e) = b ∧ c₁.advance = c') ∨
          c.advance.advance.current.kind = .semicolon ∧ (x, none) = b ∧
            c.advance.advance.advance = c') := by
  simp only [varBinding, runOn_expect_bind_eq_ok, runOn_ident_bind_eq_ok, runOn_ifEat]
  refine and_congr_right fun _ => exists_congr fun x => and_congr_right fun _ =>
    and_congr_right fun _ => ?_
  by_cases h : c.advance.advance.current.kind = .equals
  · rw [if_pos h, map_eq_pure_bind]
    simp only [bind_assoc, pure_bind, runOn_expr_semicolon_eq_ok, h, true_and, reduceCtorEq,
      false_and, or_false]
  · rw [if_neg h]
    simp only [pure_bind, runOn_expect_bind_eq_ok, runOn_pure, h, false_and, false_or,
      Prod.mk.injEq, Except.ok.injEq]

theorem runOn_assignment_eq_ok {s : Stmt} :
    assignment.runOn c = (.ok s, c') ↔
      ∃ x, c.current.kind = .identifier ∧ c.current.text = some x ∧
        c.advance.current.kind = .equals ∧
        ∃ e c₁, expr.runOn c.advance.advance = (.ok e, c₁) ∧ c₁.current.kind = .semicolon ∧
          .assign x e = s ∧ c₁.advance = c' := by
  simp only [assignment, runOn_ident_bind_eq_ok, runOn_expect_bind_eq_ok,
    runOn_expr_semicolon_eq_ok]

theorem runOn_returnStmt_eq_ok {s : Stmt} :
    returnStmt.runOn c = (.ok s, c') ↔
      c.current.kind = .returnWord ∧
        ∃ e c₁, expr.runOn c.advance = (.ok e, c₁) ∧ c₁.current.kind = .semicolon ∧
          .ret e = s ∧ c₁.advance = c' := by
  simp only [returnStmt, runOn_expect_bind_eq_ok, runOn_expr_semicolon_eq_ok]

theorem runOn_callStmt_eq_ok {s : Stmt} :
    callStmt.runOn c = (.ok s, c') ↔
      ∃ e c₁, (call expr).runOn c = (.ok e, c₁) ∧ c₁.current.kind = .semicolon ∧
        .expr e = s ∧ c₁.advance = c' := by
  simp only [callStmt, runOn_bind_eq_ok (x := call expr), runOn_expect_bind_eq_ok, runOn_pure,
    Prod.mk.injEq, Except.ok.injEq]

theorem runOn_stmt (c : Cursor) :
    stmt.runOn c = match c.current.kind with
      | .constWord => ((fun b => .const b.1 b.2) <$> constBinding : Parse Stmt).runOn c
      | .varWord => ((fun b => .var b.1 (b.2.getD .null)) <$> varBinding : Parse Stmt).runOn c
      | .returnWord => returnStmt.runOn c
      | .identifier =>
        if c.next.kind = .openParen then callStmt.runOn c else assignment.runOn c
      | _ => (.error (c.unexpected .statement), c) := by
  rw [stmt, runOn_bind_ok (runOn_get c)]
  cases hk : c.current.kind <;> try rfl
  simp only []
  split <;> rfl

/-! ## Functions -/

theorem runOn_param_eq_ok {f : String} {ps ps' : Params} :
    (param f ps).runOn c = (.ok ps', c') ↔
      ∃ x, c.current.kind = .identifier ∧ c.current.text = some x ∧ ps.contains x = false ∧
        (c.advance.current.kind = .equals ∧ (∃ e c₁,
            expr.runOn c.advance.advance = (.ok e, c₁) ∧
            { ps with optional := ps.optional ++ [⟨x, e⟩] } = ps' ∧ c₁ = c') ∨
          c.advance.current.kind ≠ .equals ∧ ps.optional = [] ∧
            { ps with required := ps.required ++ [x] } = ps' ∧ c.advance = c') := by
  simp only [param, runOn_bind_ok (runOn_current _), runOn_ident_bind_eq_ok]
  refine exists_congr fun x => and_congr_right fun _ => and_congr_right fun _ => ?_
  cases hx : ps.contains x with
  | true => simp
  | false =>
    simp only [Bool.false_eq_true, if_false, runOn_ifEat, true_and]
    by_cases h : c.advance.current.kind = .equals
    · rw [if_pos h]
      simp only [h, runOn_bind_eq_ok (x := expr), runOn_pure, Prod.mk.injEq, Except.ok.injEq,
        true_and, ne_eq, not_true_eq_false, false_and, or_false]
    · rw [if_neg h]
      cases ho : ps.optional <;> simp [h]

theorem runOn_params_eq_ok {f : String} {token : Token} {rounds : List Token}
    {ps ps' : Params} :
    (params f (token :: rounds) ps).runOn c = (.ok ps', c') ↔
      ∃ ps₁ c₁, (param f ps).runOn c = (.ok ps₁, c₁) ∧
        (c₁.current.kind = .closeParen ∧ ps₁ = ps' ∧ c₁.advance = c' ∨
          c₁.current.kind = .comma ∧ (params f rounds ps₁).runOn c₁.advance = (.ok ps', c')) := by
  simp only [params, runOn_bind_eq_ok (x := param _ _), runOn_ifEat]
  refine exists_congr fun ps₁ => exists_congr fun c₁ => and_congr_right fun _ => ?_
  by_cases hclose : c₁.current.kind = .closeParen
  · simp [hclose]
  · by_cases hcomma : c₁.current.kind = .comma <;> simp [hcomma, hclose]

theorem runOn_body_eq_ok {token : Token} {rounds : List Token} {ss : List Stmt} :
    (body (token :: rounds)).runOn c = (.ok ss, c') ↔
      c.current.kind = .closeBrace ∧ [] = ss ∧ c.advance = c' ∨
        c.current.kind ≠ .closeBrace ∧ ∃ s c₁, stmt.runOn c = (.ok s, c₁) ∧
          ∃ ss' c₂, (body rounds).runOn c₁ = (.ok ss', c₂) ∧ s :: ss' = ss ∧ c₂ = c' := by
  simp only [body, runOn_ifEat]
  by_cases hclose : c.current.kind = .closeBrace
  · simp [hclose]
  · rw [if_neg hclose]
    simp only [runOn_bind_eq_ok, runOn_pure, Prod.mk.injEq, Except.ok.injEq, hclose, false_and,
      false_or, ne_eq, not_false_eq_true, true_and]

theorem runOn_paramList_eq_ok {f : String} {ps : Params} :
    (paramList f).runOn c = (.ok ps, c') ↔
      c.current.kind = .closeParen ∧ {} = ps ∧ c.advance = c' ∨
        c.current.kind ≠ .closeParen ∧ (params f (c.final :: c.rest) {}).runOn c = (.ok ps, c') := by
  simp only [paramList, runOn_ifEat, runOn_bind_ok (runOn_rounds _)]
  by_cases hclose : c.current.kind = .closeParen <;> simp [hclose]

theorem runOn_function_eq_ok {f : Function} :
    function.runOn c = (.ok f, c') ↔
      c.current.kind = .funcWord ∧ ∃ x, c.advance.current.kind = .identifier ∧
        c.advance.current.text = some x ∧ c.advance.advance.current.kind = .openParen ∧
        ∃ ps c₁, (paramList x).runOn c.advance.advance.advance = (.ok ps, c₁) ∧
          c₁.current.kind = .openBrace ∧
          ∃ ss c₂, (body (c₁.advance.final :: c₁.advance.rest)).runOn c₁.advance = (.ok ss, c₂) ∧
            ⟨x, ps.required, ps.optional, ss⟩ = f ∧ c₂ = c' := by
  simp only [function, runOn_expect_bind_eq_ok, runOn_ident_bind_eq_ok,
    runOn_bind_eq_ok (x := paramList _), runOn_bind_ok (runOn_rounds _),
    runOn_bind_eq_ok (x := body _), runOn_pure, Prod.mk.injEq, Except.ok.injEq]

/-! ## Declarations -/

theorem runOn_decl (c : Cursor) :
    decl.runOn c = match c.current.kind with
      | .constWord => ((fun b => .const b.1 b.2) <$> constBinding : Parse Decl).runOn c
      | .varWord => ((fun b => .var b.1 b.2) <$> varBinding : Parse Decl).runOn c
      | .funcWord => (.func <$> function : Parse Decl).runOn c
      | _ => (.error (c.unexpected .declaration), c) := by
  rw [decl, runOn_bind_ok (runOn_current c)]
  cases hk : c.current.kind <;> rfl

theorem runOn_decls_of_ok {d : Decl} (hne : c.current.kind ≠ .endOfInput)
    (h : decl.runOn c = (.ok d, c')) (token : Token) (rounds : List Token) :
    (decls (token :: rounds)).runOn c = ((d :: ·) <$> decls rounds).runOn c' := by
  rw [decls, runOn_bind_ok (runOn_current c), if_neg hne, runOn_bind_ok h, map_eq_pure_bind]

theorem runOn_decls_eq_ok {token : Token} {rounds : List Token} {ds : List Decl} :
    (decls (token :: rounds)).runOn c = (.ok ds, c') ↔
      c.current.kind = .endOfInput ∧ [] = ds ∧ c = c' ∨
        c.current.kind ≠ .endOfInput ∧ ∃ d c₁, decl.runOn c = (.ok d, c₁) ∧
          ∃ ds' c₂, (decls rounds).runOn c₁ = (.ok ds', c₂) ∧ d :: ds' = ds ∧ c₂ = c' := by
  simp only [decls, runOn_bind_ok (runOn_current _)]
  by_cases hend : c.current.kind = .endOfInput
  · simp [hend]
  · rw [if_neg hend]
    simp only [runOn_bind_eq_ok, runOn_pure, Prod.mk.injEq, Except.ok.injEq, hend, false_and,
      false_or, ne_eq, not_false_eq_true, true_and]

end Parse

end Scriptlet
