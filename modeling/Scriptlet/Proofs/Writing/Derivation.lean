-- SUMMARY: What a tree is written as has a derivation that means the tree and nests no deeper than it is high.
import Scriptlet.Proofs.Grammar.Follow
import Scriptlet.Proofs.Grammar.Limits
import Scriptlet.Proofs.Parse.Params
import Scriptlet.Proofs.Writing

/-!
# Written trees are derived

A tree that is written where any operator may stand is derived as a sum; where
only products may stand, as a term; and where no operator may stand, as a factor.
Parentheses stand only around operators, so that each level of nesting goes with
a level of the tree.
-/
namespace Scriptlet

open Grammar
open Terminal (mark word)

namespace Grammar

/-! ## Longer tails -/

/-- The tail with one more factor at its end. -/
def TermTail.snoc : TermTail → MulOp → Factor → TermTail
  | .done, op, f => .more op f .done
  | .more op' f' tail, op, f => .more op' f' (tail.snoc op f)

theorem TermTail.yield_snoc (op : MulOp) (f : Factor) :
    (tail : TermTail) → (tail.snoc op f).yield = tail.yield ++ mark op.kind :: f.yield
  | .done => by simp [snoc, yield]
  | .more op' f' tail => by simp [snoc, yield, tail.yield_snoc op f]

theorem TermTail.onto_snoc (op : MulOp) (f : Factor) :
    (tail : TermTail) → (lhs : Expr) →
      (tail.snoc op f).onto lhs = .binary op.op (tail.onto lhs) f.tree
  | .done, lhs => by simp [snoc, onto]
  | .more op' f' tail, lhs => by simp [snoc, onto, tail.onto_snoc op f]

theorem TermTail.nesting_snoc (op : MulOp) (f : Factor) :
    (tail : TermTail) → (tail.snoc op f).nesting = max tail.nesting f.nesting
  | .done => by simp [snoc, nesting]
  | .more op' f' tail => by simp [snoc, nesting, tail.nesting_snoc op f, Nat.max_assoc]

/-- The tail with one more term at its end. -/
def SumTail.snoc : SumTail → AddOp → Term → SumTail
  | .done, op, t => .more op t .done
  | .more op' t' tail, op, t => .more op' t' (tail.snoc op t)

theorem SumTail.yield_snoc (op : AddOp) (t : Term) :
    (tail : SumTail) → (tail.snoc op t).yield = tail.yield ++ mark op.kind :: t.yield
  | .done => by simp [snoc, yield]
  | .more op' t' tail => by simp [snoc, yield, tail.yield_snoc op t]

theorem SumTail.onto_snoc (op : AddOp) (t : Term) :
    (tail : SumTail) → (lhs : Expr) →
      (tail.snoc op t).onto lhs = .binary op.op (tail.onto lhs) t.tree
  | .done, lhs => by simp [snoc, onto]
  | .more op' t' tail, lhs => by simp [snoc, onto, tail.onto_snoc op t]

theorem SumTail.nesting_snoc (op : AddOp) (t : Term) :
    (tail : SumTail) → (tail.snoc op t).nesting = max tail.nesting t.nesting
  | .done => by simp [snoc, nesting]
  | .more op' t' tail => by simp [snoc, nesting, tail.nesting_snoc op t, Nat.max_assoc]

/-! ## Derivations of trees -/

/-- The terminals are derived as a factor that means the tree. -/
def IsFactor (e : Expr) (ts : List Terminal) : Prop :=
  ∃ f : Factor, f.yield = ts ∧ f.tree = e ∧ f.nesting ≤ e.height

/-- The terminals are derived as a term that means the tree. -/
def IsTerm (e : Expr) (ts : List Terminal) : Prop :=
  ∃ t : Term, t.yield = ts ∧ t.tree = e ∧ t.nesting ≤ e.height

/-- The terminals are derived as a sum that means the tree. -/
def IsSum (e : Expr) (ts : List Terminal) : Prop :=
  ∃ s : Grammar.Sum, s.yield = ts ∧ s.tree = e ∧ s.nesting ≤ e.height

variable {e l r : Expr} {ts us : List Terminal}

theorem IsFactor.isTerm (h : IsFactor e ts) : IsTerm e ts := by
  obtain ⟨f, rfl, rfl, hn⟩ := h
  exact ⟨.mk f .done, by simp [Term.yield, TermTail.yield], rfl, by
    simpa [Term.nesting, TermTail.nesting] using hn⟩

theorem IsTerm.isSum (h : IsTerm e ts) : IsSum e ts := by
  obtain ⟨t, rfl, rfl, hn⟩ := h
  exact ⟨.mk t .done, by simp [Sum.yield, SumTail.yield], rfl, by
    simpa [Sum.nesting, SumTail.nesting] using hn⟩

/-- An operator between factors makes a term. It nests no deeper than its operands. -/
theorem exists_term_mul {m : MulOp} (hl : IsTerm l ts) (hr : IsFactor r us) :
    ∃ t : Term, t.yield = ts ++ mark m.kind :: us ∧ t.tree = .binary m.op l r ∧
      t.nesting < (Expr.binary m.op l r).height := by
  obtain ⟨⟨f, tail⟩, rfl, rfl, hln⟩ := hl
  obtain ⟨g, rfl, rfl, hrn⟩ := hr
  refine ⟨.mk f (tail.snoc m g), ?_, ?_, ?_⟩
  · rw [Term.yield, Term.yield, tail.yield_snoc, List.append_assoc]
  · rw [Term.tree, tail.onto_snoc]
    rfl
  · unfold Term.nesting at hln
    rw [Term.nesting, tail.nesting_snoc, Expr.height]
    omega

/-- An operator between terms makes a sum. It nests no deeper than its operands. -/
theorem exists_sum_add {a : AddOp} (hl : IsSum l ts) (hr : IsTerm r us) :
    ∃ s : Grammar.Sum, s.yield = ts ++ mark a.kind :: us ∧ s.tree = .binary a.op l r ∧
      s.nesting < (Expr.binary a.op l r).height := by
  obtain ⟨⟨t, tail⟩, rfl, rfl, hln⟩ := hl
  obtain ⟨u, rfl, rfl, hrn⟩ := hr
  refine ⟨.mk t (tail.snoc a u), ?_, ?_, ?_⟩
  · rw [Sum.yield, Sum.yield, tail.yield_snoc, List.append_assoc]
  · rw [Sum.tree, tail.onto_snoc]
    rfl
  · unfold Sum.nesting at hln
    rw [Sum.nesting, tail.nesting_snoc, Expr.height]
    omega

theorem isFactor_parens {s : Grammar.Sum} (hs : s.nesting < s.tree.height) :
    IsFactor s.tree (mark .openParen :: (s.yield ++ [mark .closeParen])) :=
  ⟨.parens s, rfl, rfl, hs⟩

end Grammar

/-! ## Expressions -/

/-- The terminals are derived as what may stand where operators bind with at least the power. -/
structure DerivedAt (least : Nat) (e : Expr) (ts : List Terminal) : Prop where
  sum : IsSum e ts
  term : 2 ≤ least → IsTerm e ts
  factor : 4 ≤ least → IsFactor e ts

/-- Arguments are derived, if there are any. -/
def DerivedArgs (args : List Expr) (tss : List (List Terminal)) : Prop :=
  args = [] ∧ tss = [] ∨
    ∃ a : Args, tss ≠ [] ∧ a.yield = commas tss ∧ a.trees = args ∧ a.nesting ≤ Expr.maxHeight args

theorem Grammar.IsFactor.derivedAt {least : Nat} {e : Expr} {ts : List Terminal} (h : IsFactor e ts) :
    DerivedAt least e ts :=
  ⟨h.isTerm.isSum, fun _ => h.isTerm, fun _ => h⟩

theorem derivedAt_literal {least : Nat} {e : Expr} (l : Literal) (htree : l.tree = e)
    (hheight : e.height = 1) : DerivedAt least e [l.terminal] := by
  subst htree
  exact IsFactor.derivedAt ⟨.literal l, rfl, rfl, Nat.le_of_eq hheight.symm⟩

/-- Every operator is one of a product or one of a sum. -/
theorem BinaryOp.mul_or_add (op : BinaryOp) :
    (∃ m : MulOp, op = m.op ∧ op.kind = m.kind) ∨ ∃ a : AddOp, op = a.op ∧ op.kind = a.kind := by
  cases op with
  | add => exact .inr ⟨.plus, rfl, rfl⟩
  | sub => exact .inr ⟨.minus, rfl, rfl⟩
  | mul => exact .inl ⟨.times, rfl, rfl⟩
  | div => exact .inl ⟨.over, rfl, rfl⟩

theorem BinaryOp.bindingPower_le (op : BinaryOp) : op.bindingPower.1 ≤ 3 := by
  cases op <;> decide

/-- What is written around an operator without parentheses is a sum, and a term if the operator
is one of a product. -/
theorem derived_binary {op : BinaryOp} {l r : Expr} {ts us : List Terminal}
    (hl : DerivedAt op.bindingPower.1 l ts) (hr : DerivedAt op.bindingPower.2 r us) :
    (∃ s : Grammar.Sum, s.yield = ts ++ mark op.kind :: us ∧ s.tree = .binary op l r ∧
      s.nesting < (Expr.binary op l r).height) ∧
    (2 ≤ op.bindingPower.1 → IsTerm (.binary op l r) (ts ++ mark op.kind :: us)) := by
  obtain ⟨m, rfl, hk⟩ | ⟨a, rfl, hk⟩ := op.mul_or_add
  · rw [hk]
    rw [bindingPower_mul] at hl hr
    obtain ⟨t, hyield, htree, hn⟩ :=
      exists_term_mul (m := m) (hl.term (by decide)) (hr.factor (by decide))
    refine ⟨⟨.mk t .done, ?_, htree, ?_⟩, fun _ => ⟨t, hyield, htree, Nat.le_of_lt hn⟩⟩
    · rw [Sum.yield, SumTail.yield, List.append_nil, hyield]
    · rwa [Sum.nesting, SumTail.nesting, Nat.max_zero]
  · rw [hk]
    rw [bindingPower_add] at hl hr ⊢
    refine ⟨exists_sum_add hl.sum (hr.term (by decide)), fun h => ?_⟩
    exact absurd h (by decide)

theorem exists_call {x : String} {args : List Expr} {tss : List (List Terminal)}
    (h : DerivedArgs args tss) :
    ∃ c : Call, c.yield = word x :: mark .openParen :: (commas tss ++ [mark .closeParen]) ∧
      c.tree = .call (.name x) args ∧ c.nesting < (Expr.call (.name x) args).height := by
  unfold Expr.height
  obtain ⟨rfl, rfl⟩ | ⟨a, -, hyield, rfl, hn⟩ := h
  · exact ⟨.plain x, rfl, rfl, Nat.succ_pos _⟩
  · rw [← hyield]
    exact ⟨.applied x a, rfl, rfl, Nat.lt_succ_of_le hn⟩

theorem commas_cons {ts : List Terminal} {tss : List (List Terminal)} (h : tss ≠ []) :
    commas (ts :: tss) = ts ++ mark .comma :: commas tss := by
  cases tss with
  | nil => exact absurd rfl h
  | cons us tss => rw [commas]; exact List.cons_ne_nil us tss

theorem derivedArgs_cons {e : Expr} {es : List Expr} {ts : List Terminal}
    {tss : List (List Terminal)} (h : DerivedAt 0 e ts) (hs : DerivedArgs es tss) :
    DerivedArgs (e :: es) (ts :: tss) := by
  obtain ⟨s, rfl, rfl, hn⟩ := h.sum
  refine .inr ?_
  obtain ⟨rfl, rfl⟩ | ⟨a, hne, hyield, rfl, hargs⟩ := hs
  · exact ⟨.last s, List.cons_ne_nil _ _, rfl, rfl, Nat.le_trans hn (Nat.le_max_left _ _)⟩
  · refine ⟨.more s a, List.cons_ne_nil _ _, ?_, rfl, ?_⟩
    · rw [commas_cons hne, ← hyield, Args.yield]
    · rw [Args.nesting, Expr.maxHeight]
      omega

mutual

theorem Expr.Written.derivedAt {least : Nat} {e : Expr} {ts : List Terminal} :
    e.Written least ts → DerivedAt least e ts
  | .null => derivedAt_literal .null rfl (by rw [Expr.height])
  | @Expr.Written.int _ n _ => by
    refine derivedAt_literal (.integer n.repr) ?_ (by rw [Expr.height])
    rw [Literal.tree, Nat.toList_repr, Nat.ofDigitChars_ten_toDigits]
  | @Expr.Written.float _ text x _ hread => by
    refine derivedAt_literal (.float text) ?_ (by rw [Expr.height])
    rw [Literal.tree, hread, Option.getD_some]
  | .string value => derivedAt_literal (.string value) rfl (by rw [Expr.height])
  | .name x => IsFactor.derivedAt ⟨.name x, rfl, rfl, Nat.le_refl 1⟩
  | .unary h => by
    obtain ⟨f, rfl, rfl, hn⟩ := h.derivedAt.factor (Nat.le_refl 4)
    exact IsFactor.derivedAt ⟨.signed _ f, rfl, rfl, Nat.succ_le_succ hn⟩
  | .binary hl hr hplace => by
    obtain ⟨⟨s, hyield, htree, hn⟩, hterm⟩ := derived_binary hl.derivedAt hr.derivedAt
    refine ⟨⟨s, hyield, htree, Nat.le_of_lt hn⟩, fun h => hterm (Nat.le_trans h hplace), fun h => ?_⟩
    exact absurd (Nat.le_trans h (Nat.le_trans hplace (BinaryOp.bindingPower_le _))) (by decide)
  | .parens hl hr _ => by
    obtain ⟨⟨s, hyield, htree, hn⟩, -⟩ := derived_binary hl.derivedAt hr.derivedAt
    rw [← htree] at hn ⊢
    rw [← hyield]
    exact (isFactor_parens hn).derivedAt
  | .call h => by
    obtain ⟨c, hyield, htree, hn⟩ := exists_call h.derivedArgs
    exact IsFactor.derivedAt ⟨.call c, hyield, htree, hn⟩

theorem Expr.WrittenAll.derivedArgs {args : List Expr} {tss : List (List Terminal)} :
    Expr.WrittenAll args tss → DerivedArgs args tss
  | .nil => .inl ⟨rfl, rfl⟩
  | .cons h hs => derivedArgs_cons h.derivedAt hs.derivedArgs

end

/-- A tree within the limit is written as a sum within the limits. -/
theorem Expr.Written.exists_sum {e : Expr} {ts : List Terminal} (h : e.Written 0 ts)
    (hh : e.height ≤ maxNesting) :
    ∃ s : Grammar.Sum, s.yield = ts ∧ s.tree = e ∧ s.Fits := by
  obtain ⟨s, hyield, rfl, hn⟩ := h.derivedAt.sum
  exact ⟨s, hyield, rfl, hh, Nat.le_trans hn hh⟩

/-! ## Terminals -/

/-- The terminal can be written, and if it is a number it is in range. -/
structure Terminal.Writable (t : Terminal) : Prop where
  spellable : t.Spellable
  inRange : t.InRange

@[simp] theorem Terminal.writable_mark_iff {kind : Token.Kind} :
    (mark kind).Writable ↔ kind.isMark := by
  constructor
  · rintro ⟨h, -⟩
    cases kind <;> simp_all [Terminal.Spellable, Terminal.Lexed, Token.Kind.isMark]
  · intro h
    cases kind <;> first
      | exact ⟨rfl, fun hk => by cases hk⟩
      | cases h

@[simp] theorem Terminal.writable_word_iff {x : String} :
    (word x).Writable ↔ Token.IsIdentifier x := by
  constructor
  · rintro ⟨⟨y, hy, h⟩, -⟩
    cases hy
    exact h
  · exact fun h => ⟨⟨x, rfl, h⟩, fun hk => by cases hk⟩

theorem writable_commas {tss : List (List Terminal)}
    (h : ∀ ts ∈ tss, ∀ t ∈ ts, t.Writable) : ∀ t ∈ commas tss, t.Writable := by
  induction tss with
  | nil => simp [commas]
  | cons ts tss ih =>
    obtain ⟨hts, htss⟩ := List.forall_mem_cons.mp h
    cases tss with
    | nil => exact hts
    | cons us tss =>
      rw [commas_cons (List.cons_ne_nil us tss)]
      refine List.forall_mem_append.mpr ⟨hts, List.forall_mem_cons.mpr ⟨?_, ih htss⟩⟩
      exact Terminal.writable_mark_iff.mpr rfl

theorem writable_binary {op : BinaryOp} {ts us : List Terminal} (ht : ∀ t ∈ ts, t.Writable)
    (hu : ∀ t ∈ us, t.Writable) : ∀ t ∈ ts ++ mark op.kind :: us, t.Writable := by
  refine List.forall_mem_append.mpr ⟨ht, List.forall_mem_cons.mpr ⟨?_, hu⟩⟩
  cases op <;> exact Terminal.writable_mark_iff.mpr rfl

mutual

theorem Expr.Written.writable {least : Nat} {e : Expr} {ts : List Terminal} :
    e.Written least ts → e.WellFormed → ∀ t ∈ ts, t.Writable
  | .null, _ => List.forall_mem_singleton.mpr (Terminal.writable_mark_iff.mpr rfl)
  | @Expr.Written.int _ n hn, _ => by
    refine List.forall_mem_singleton.mpr ⟨⟨_, rfl, ?_⟩, fun _ => ?_⟩
    · rw [Nat.toList_repr]
      exact Decimal.isWhole_toDigits n
    · rw [Option.getD_some, Nat.toList_repr, Nat.ofDigitChars_ten_toDigits]
      exact hn
  | .float hpoint _, _ =>
    List.forall_mem_singleton.mpr ⟨⟨_, rfl, hpoint⟩, fun hk => by cases hk⟩
  | .string _, _ => List.forall_mem_singleton.mpr ⟨⟨_, rfl⟩, fun hk => by cases hk⟩
  | .name _, he => List.forall_mem_singleton.mpr (Terminal.writable_word_iff.mpr he)
  | @Expr.Written.unary _ op _ _ h, he => by
    refine List.forall_mem_cons.mpr ⟨Terminal.writable_mark_iff.mpr ?_, h.writable he⟩
    cases op <;> rfl
  | .binary hl hr _, he => writable_binary (hl.writable he.1) (hr.writable he.2)
  | .parens hl hr _, he => by
    refine List.forall_mem_cons.mpr ⟨Terminal.writable_mark_iff.mpr rfl, ?_⟩
    refine List.forall_mem_append.mpr ⟨writable_binary (hl.writable he.1) (hr.writable he.2), ?_⟩
    exact List.forall_mem_singleton.mpr (Terminal.writable_mark_iff.mpr rfl)
  | .call h, ⟨⟨x, hx, hident⟩, hargs⟩ => by
    cases hx
    refine List.forall_mem_cons.mpr ⟨Terminal.writable_word_iff.mpr hident, ?_⟩
    refine List.forall_mem_cons.mpr ⟨Terminal.writable_mark_iff.mpr rfl, ?_⟩
    refine List.forall_mem_append.mpr ⟨writable_commas (h.writable hargs), ?_⟩
    exact List.forall_mem_singleton.mpr (Terminal.writable_mark_iff.mpr rfl)

theorem Expr.WrittenAll.writable {args : List Expr} {tss : List (List Terminal)} :
    Expr.WrittenAll args tss → Expr.AllWellFormed args → ∀ ts ∈ tss, ∀ t ∈ ts, t.Writable
  | .nil, _ => by simp
  | .cons h hs, hargs => List.forall_mem_cons.mpr ⟨h.writable hargs.1, hs.writable hargs.2⟩

end

end Scriptlet
