-- SUMMARY: Which tokens go on with an expression, and what may follow one so that its end is seen.
import Scriptlet.Parse.Expr
import Scriptlet.Proofs.Grammar

/-!
# What follows an expression

An expression ends where no token goes on with it: a parenthesis would turn a
name into a call, and an operator that binds strongly enough would take what was
read as its left operand. The operators of sums bind less strongly than those of
products, so a term may be followed by one and a factor by either.
-/
namespace Scriptlet.Grammar

open Terminal (mark word)

/-! ## Operators by their strength -/

/-- The operator that the token is, if that binds its left operand with at least the given
power. -/
def operatorOver? (least : Nat) (kind : Token.Kind) : Option BinaryOp :=
  kind.binaryOp?.filter fun op => least ≤ op.bindingPower.1

variable {least : Nat} {kind : Token.Kind} {op : BinaryOp}

theorem operatorOver?_eq_some_iff :
    operatorOver? least kind = some op ↔
      kind.binaryOp? = some op ∧ least ≤ op.bindingPower.1 := by
  rw [operatorOver?, Option.filter_eq_some_iff, decide_eq_true_eq]

theorem operatorOver?_four (kind : Token.Kind) : operatorOver? 4 kind = none := by
  cases kind <;> rfl

/-- An operator is one of a product or one of a sum. -/
theorem operatorOver?_eq_some (h : operatorOver? least kind = some op) :
    (∃ m : MulOp, kind = m.kind ∧ op = m.op ∧ least ≤ 3) ∨
      ∃ a : AddOp, kind = a.kind ∧ op = a.op ∧ least ≤ 1 := by
  obtain ⟨hop, hleast⟩ := operatorOver?_eq_some_iff.mp h
  cases kind <;> cases hop
  · exact .inr ⟨.plus, rfl, rfl, hleast⟩
  · exact .inr ⟨.minus, rfl, rfl, hleast⟩
  · exact .inl ⟨.times, rfl, rfl, hleast⟩
  · exact .inl ⟨.over, rfl, rfl, hleast⟩

theorem operatorOver?_mul (h : least ≤ 3) (m : MulOp) :
    operatorOver? least m.kind = some m.op := by
  rw [operatorOver?_eq_some_iff]
  cases m <;> exact ⟨rfl, h⟩

theorem operatorOver?_add (h : least ≤ 1) (a : AddOp) :
    operatorOver? least a.kind = some a.op := by
  rw [operatorOver?_eq_some_iff]
  cases a <;> exact ⟨rfl, h⟩

theorem operatorOver?_none_mono {least' : Nat} (h : operatorOver? least kind = none)
    (hle : least ≤ least') : operatorOver? least' kind = none := by
  rw [Option.eq_none_iff_forall_ne_some] at h ⊢
  intro op hop
  obtain ⟨hop, hleast⟩ := operatorOver?_eq_some_iff.mp hop
  exact h op (operatorOver?_eq_some_iff.mpr ⟨hop, Nat.le_trans hle hleast⟩)

theorem bindingPower_mul (m : MulOp) : m.op.bindingPower = (3, 4) := by
  cases m <;> rfl

theorem bindingPower_add (a : AddOp) : a.op.bindingPower = (1, 2) := by
  cases a <;> rfl

/-! ## Follow sets -/

/-- The kind of the first terminal. Behind the last one stands the end of input. -/
def firstKind : List Terminal → Token.Kind
  | [] => .endOfInput
  | t :: _ => t.kind

/-- An expression whose operators bind with at least the given power ends before these
terminals. -/
structure Follows (least : Nat) (more : List Terminal) : Prop where
  noParen : firstKind more ≠ .openParen
  noOperator : operatorOver? least (firstKind more) = none

variable {more : List Terminal}

theorem Follows.mono {least' : Nat} (h : Follows least more) (hle : least ≤ least') :
    Follows least' more :=
  ⟨h.noParen, operatorOver?_none_mono h.noOperator hle⟩

theorem follows_closeParen (more : List Terminal) : Follows 0 (mark .closeParen :: more) :=
  ⟨by simp [firstKind], rfl⟩

theorem follows_comma (more : List Terminal) : Follows 0 (mark .comma :: more) :=
  ⟨by simp [firstKind], rfl⟩

theorem follows_semicolon (more : List Terminal) : Follows 0 (mark .semicolon :: more) :=
  ⟨by simp [firstKind], rfl⟩

/-- A factor ends before the tail of its term. -/
theorem follows_termTail (tail : TermTail) (h : Follows 2 more) :
    Follows 4 (tail.yield ++ more) := by
  refine ⟨?_, operatorOver?_four _⟩
  cases tail with
  | done => simpa [TermTail.yield] using h.noParen
  | more op f tail => cases op <;> simp [TermTail.yield, firstKind, MulOp.kind]

/-- A term ends before the tail of its sum. -/
theorem follows_sumTail (tail : SumTail) (h : Follows 0 more) :
    Follows 2 (tail.yield ++ more) := by
  cases tail with
  | done => simpa [SumTail.yield] using h.mono (Nat.zero_le 2)
  | more op t tail => cases op <;> exact ⟨by simp [SumTail.yield, firstKind, AddOp.kind], rfl⟩

theorem not_follows_mul {m : MulOp} (h : least ≤ 3) :
    ¬ Follows least (mark m.kind :: more) := by
  intro hf
  have hop := hf.noOperator
  rw [firstKind, operatorOver?_mul h] at hop
  cases hop

theorem not_follows_add {a : AddOp} (h : least ≤ 1) :
    ¬ Follows least (mark a.kind :: more) := by
  intro hf
  have hop := hf.noOperator
  rw [firstKind, operatorOver?_add h] at hop
  cases hop

/-! ## First terminals -/

/-- The kind of the first terminal of a factor. -/
def Factor.firstKind : Factor → Token.Kind
  | .literal l => l.terminal.kind
  | .name _ | .call _ => .identifier
  | .signed sign _ => signKind sign
  | .parens _ => .openParen

theorem Factor.firstKind_yield (f : Factor) (r : List Terminal) :
    Grammar.firstKind (f.yield ++ r) = f.firstKind := by
  cases f with
  | call c => cases c <;> rfl
  | _ => rfl

/-- A call shows by its second terminal. -/
theorem Call.yield_eq (c : Call) :
    ∃ x ts, c.yield = word x :: mark .openParen :: ts := by
  cases c with
  | plain x => exact ⟨x, _, rfl⟩
  | applied x args => exact ⟨x, _, rfl⟩

/-- Arguments do not begin with a closing parenthesis. -/
theorem Args.firstKind_yield_ne (args : Args) (r : List Terminal) :
    Grammar.firstKind (args.yield ++ r) ≠ .closeParen := by
  have hfactor (f : Factor) : f.firstKind ≠ .closeParen := by
    cases f with
    | literal l => cases l <;> simp [Factor.firstKind, Literal.terminal]
    | signed sign _ => cases sign <;> simp [Factor.firstKind, signKind]
    | _ => simp [Factor.firstKind]
  have hsum (s : Grammar.Sum) (ts : List Terminal) :
      Grammar.firstKind (s.yield ++ ts) ≠ .closeParen := by
    rcases s with ⟨⟨f, tail⟩, sums⟩
    rw [Sum.yield, Term.yield, List.append_assoc, List.append_assoc, f.firstKind_yield]
    exact hfactor f
  cases args with
  | last s => exact hsum s r
  | more s args =>
    rw [Args.yield, List.append_assoc]
    exact hsum s _

/-- The kind of the first terminal of a statement. -/
def Statement.firstKind : Statement → Token.Kind
  | .const _ _ => .constWord
  | .var _ _ => .varWord
  | .assign _ _ | .call _ => .identifier
  | .ret _ => .returnWord

theorem Statement.firstKind_yield (s : Statement) (r : List Terminal) :
    Grammar.firstKind (s.yield ++ r) = s.firstKind := by
  cases s with
  | call c => cases c <;> rfl
  | _ => rfl

theorem Statement.yield_ne_nil (s : Statement) : s.yield ≠ [] := by
  intro h
  have hfirst := s.firstKind_yield []
  rw [h] at hfirst
  cases s <;> cases hfirst

/-- The kind of the first terminal of a declaration. -/
def Declaration.firstKind : Declaration → Token.Kind
  | .const _ _ => .constWord
  | .var _ _ => .varWord
  | .func _ => .funcWord

theorem Declaration.firstKind_yield (d : Declaration) (r : List Terminal) :
    Grammar.firstKind (d.yield ++ r) = d.firstKind := by
  cases d <;> rfl

theorem Declaration.yield_ne_nil (d : Declaration) : d.yield ≠ [] := by
  cases d <;> exact List.cons_ne_nil _ _

/-- What stands behind the first parameter of a list. -/
def paramTail : List Param → List Terminal
  | [] => []
  | q :: ps => mark .comma :: paramList (q :: ps)

theorem paramList_cons (p : Param) (ps : List Param) :
    paramList (p :: ps) = p.yield ++ paramTail ps := by
  cases ps with
  | nil => rw [paramList, paramTail, List.append_nil]
  | cons q ps => rw [paramList, paramTail]; exact List.cons_ne_nil q ps

theorem follows_paramTail (ps : List Param) (r : List Terminal) :
    Follows 0 (paramTail ps ++ mark .closeParen :: r) ∧
      firstKind (paramTail ps ++ mark .closeParen :: r) ≠ .equals := by
  cases ps with
  | nil => exact ⟨follows_closeParen r, by simp [paramTail, firstKind]⟩
  | cons q ps => exact ⟨follows_comma _, by simp [paramTail, firstKind]⟩

end Scriptlet.Grammar
