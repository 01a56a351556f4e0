-- SUMMARY: Every expression that the grammar derives is read as its tree, if it keeps the limits.
import Scriptlet.Proofs.Parse.Height
import Scriptlet.Proofs.Parse.Reads

/-!
# Expressions that are derived are read

What is read is stated for a cursor before the terminals of a derivation, with
any terminals behind them that the derivation may be followed by. The parser then
stops exactly there. Nesting is bounded twice, by the levels that the reader has
left and by the primary expressions that are open at the cursor.
-/
namespace Scriptlet

open Grammar
open Terminal (mark word)

namespace Cursor

/-- The cursor stands before the terminals `read`, with `more` behind them. -/
structure Before (c : Cursor) (read more : List Terminal) : Prop where
  terminals : c.terminals = read ++ more
  final : c.final.kind = .endOfInput
  inRange : ∀ t ∈ read, t.InRange
  lexed : ∀ t ∈ read, t.Lexed

/-- So many primary expressions may be opened inside each other. -/
structure Allows (c : Cursor) (levels nesting : Nat) : Prop where
  levels : nesting ≤ levels
  depth : c.depth + nesting ≤ maxNesting

variable {c c' : Cursor} {t : Terminal} {read read' more : List Terminal} {levels n : Nat}

namespace Before

theorem left (h : c.Before (read ++ read') more) : c.Before read (read' ++ more) where
  terminals := by rw [h.terminals, List.append_assoc]
  final := h.final
  inRange := (List.forall_mem_append.mp h.inRange).1
  lexed := (List.forall_mem_append.mp h.lexed).1

theorem behind (h : c.Before (read ++ read') more) (hr : c.Reads read c') :
    c'.Before read' more where
  terminals := hr.left (by rw [h.terminals, List.append_assoc])
  final := by rw [hr.final, h.final]
  inRange := (List.forall_mem_append.mp h.inRange).2
  lexed := (List.forall_mem_append.mp h.lexed).2

theorem withDepth (h : c.Before read more) (depth : Nat) :
    Before { c with depth := depth } read more :=
  ⟨h.terminals, h.final, h.inRange, h.lexed⟩

theorem withHeight (h : c.Before read more) (height : Nat) :
    Before { c with height := height } read more :=
  ⟨h.terminals, h.final, h.inRange, h.lexed⟩

theorem kind_current (h : c.Before (t :: read) more) : c.current.kind = t.kind :=
  Cursor.kind_current h.terminals

theorem text_current (h : c.Before (t :: read) more) : c.current.text = t.text :=
  Cursor.text_current h.terminals

theorem reads (h : c.Before (t :: read) more) (hend : t.kind ≠ .endOfInput) :
    c.Reads [t] c.advance :=
  reads_advance h.terminals ⟨hend, h.inRange t List.mem_cons_self⟩

theorem advance (h : c.Before (t :: read) more) (hend : t.kind ≠ .endOfInput) :
    c.advance.Before read more := by
  have hsplit : c.Before ([t] ++ read) more := h
  exact hsplit.behind (h.reads hend)

theorem done (h : c.Before read more) (hr : c.Reads read c') : c'.Before [] more :=
  behind (by rwa [List.append_nil]) hr

theorem kind_firstKind (h : c.Before read more) : c.current.kind = firstKind (read ++ more) :=
  Faces.kind_current ⟨h.terminals, h.final⟩

end Before

theorem Allows.mono {m : Nat} (h : c.Allows levels n) (hle : m ≤ n) : c.Allows levels m :=
  ⟨Nat.le_trans hle h.levels, Nat.le_trans (Nat.add_le_add_left hle _) h.depth⟩

theorem Allows.nested (h : c.Allows (levels + 1) (n + 1)) :
    Allows { c with depth := c.depth + 1 } levels n where
  levels := Nat.le_of_succ_le_succ h.levels
  depth := by
    have := h.depth
    simp only
    omega

theorem Allows.of_reads (h : c.Allows levels n) (hr : c.Reads read c') : c'.Allows levels n :=
  ⟨h.levels, by rw [hr.depth]; exact h.depth⟩

end Cursor

/-! ## Heights of the parts -/

theorem Grammar.TermTail.height_le_onto :
    (tail : TermTail) → (lhs : Expr) → lhs.height ≤ (tail.onto lhs).height
  | .done, lhs => Nat.le_refl _
  | .more op f tail, lhs => by
    have := tail.height_le_onto (.binary op.op lhs f.tree)
    rw [Expr.height] at this
    rw [TermTail.onto]
    omega

theorem Grammar.SumTail.height_le_onto :
    (tail : SumTail) → (lhs : Expr) → lhs.height ≤ (tail.onto lhs).height
  | .done, lhs => Nat.le_refl _
  | .more op t tail, lhs => by
    have := tail.height_le_onto (.binary op.op lhs t.tree)
    rw [Expr.height] at this
    rw [SumTail.onto]
    omega

namespace Parse

variable {c c₁ c' : Cursor} {read more : List Terminal} {levels n k : Nat} {e : Expr}

/-! ## Readers around readers -/

/-- The reader returns the value and stops behind the terminals. -/
def Returns {α : Type} (x : Parse α) (c : Cursor) (a : α) (read : List Terminal) : Prop :=
  ∃ c', x.runOn c = (.ok a, c') ∧ c.Reads read c'

theorem returns_primary (hd : c.depth < maxNesting)
    (h : Returns (atom (primary n)) { c with depth := c.depth + 1 } e read) :
    Returns (primary (n + 1)) c e read := by
  obtain ⟨c₁, hrun, hread⟩ := h
  exact ⟨_, runOn_primary_eq_ok.mpr ⟨hd, c₁, hrun, rfl⟩, hread.nested⟩

/-- No operator binds strongly enough to follow the right operand of a product. -/
theorem returns_operators_four {x : Parse Expr} (h : Returns x c e read) :
    Returns (operators x (k + 1) 4) c e read := by
  obtain ⟨c₁, hrun, hread⟩ := h
  exact ⟨c₁, runOn_operators_eq_ok.mpr
    ⟨e, c₁, hrun, runOn_chain_of_none (operatorOver?_four _) _ _⟩, hread⟩

/-- The loop over operators goes on from the second state to wherever it goes from the first. -/
def GoesOn (operand : Nat → Parse Expr) (least : Nat) (rounds : List Token) (lhs : Expr)
    (c : Cursor) (rounds' : List Token) (lhs' : Expr) (c' : Cursor) : Prop :=
  ∀ ⦃e c''⦄, (chain operand least rounds' lhs').runOn c' = (.ok e, c'') →
    (chain operand least rounds lhs).runOn c = (.ok e, c'')

theorem goesOn_operator {operand : Nat → Parse Expr} {least : Nat} {op : BinaryOp}
    {token : Token} {rounds : List Token} {lhs rhs : Expr}
    (hop : operatorOver? least c.current.kind = some op)
    (hrun : (operand op.bindingPower.2).runOn c.advance = (.ok rhs, c₁))
    (hlhs : c.height = lhs.height) (hrhs : c₁.height = rhs.height)
    (hh : (Expr.binary op lhs rhs).height ≤ maxNesting) :
    GoesOn operand least (token :: rounds) lhs c rounds (.binary op lhs rhs)
      { c₁ with height := (Expr.binary op lhs rhs).height } := by
  intro e c'' h
  unfold Expr.height at hh h
  exact (runOn_chain_eq_ok hop).mpr ⟨rhs, c₁, hrun, by rwa [hlhs, hrhs], by rwa [hlhs, hrhs]⟩

/-! ## Leaves -/

theorem runOn_atom_literal (l : Literal) (hc : c.Before [l.terminal] more) :
    (atom (primary n)).runOn c = (.ok l.tree, { c.advance with height := 1 }) := by
  have hk := hc.kind_current
  have htext := hc.text_current
  have hlexed := hc.lexed _ List.mem_cons_self
  cases l with
  | integer digits =>
    obtain ⟨_, heq, hdigits⟩ := hlexed
    cases heq
    have hlt := hc.inRange _ List.mem_cons_self rfl
    rw [runOn_atom, hk]
    refine runOn_number_eq_ok.mpr ⟨_, ?_, rfl, rfl⟩
    rw [htext]
    exact (Decimal.readInt64?_of_isWhole hdigits).trans (if_pos hlt)
  | float s =>
    obtain ⟨_, heq, hpoint⟩ := hlexed
    cases heq
    obtain ⟨x, hx⟩ := Option.isSome_iff_exists.mp (Decimal.readFloat?_isSome hpoint)
    rw [runOn_atom, hk]
    refine runOn_number_eq_ok.mpr ⟨x, ?_, ?_, rfl⟩
    · rw [htext]
      exact hx
    · rw [Literal.tree, hx, Option.getD_some]
  | string value =>
    rw [runOn_atom, hk, htext]
    rfl
  | null =>
    rw [runOn_atom, hk]
    rfl

theorem returns_literal (l : Literal) (hc : c.Before [l.terminal] more) :
    Returns (atom (primary n)) c l.tree [l.terminal] :=
  ⟨_, runOn_atom_literal l hc,
    (hc.reads (by cases l <;> simp [Literal.terminal])).withHeight 1⟩

theorem returns_name {x : String} (hc : c.Before [word x] more) (hmore : Follows 4 more) :
    Returns (atom (primary n)) c (.name x) [word x] := by
  have hread := hc.reads (by simp)
  have hnext : c.next.kind ≠ .openParen := by
    rw [Cursor.next_eq, (hc.advance (by simp)).kind_firstKind]
    exact hmore.noParen
  refine ⟨_, ?_, hread.withHeight 1⟩
  rw [runOn_atom, hc.kind_current]
  refine (if_neg hnext).trans (runOn_name_eq_ok.mpr ⟨x, hc.kind_current, hc.text_current, rfl, rfl⟩)

/-! ## Expressions -/

/-- The reader of expressions inside primary ones. -/
abbrev inner (levels : Nat) : Parse Expr := operators (primary levels) operatorLevels 0

theorem measured_inner (levels : Nat) : Measured (inner levels) :=
  measured_operators (measured_primary _) _ _

theorem returns_signed {sign : UnaryOp} (hc : c.Before (mark (signKind sign) :: read) more)
    (hh : (Expr.unary sign e).height ≤ maxNesting)
    (h : Returns (primary n) c.advance e read) :
    Returns (atom (primary n)) c (.unary sign e) (mark (signKind sign) :: read) := by
  obtain ⟨c₁, hrun, hread⟩ := h
  have hheight := (measured_primary n hrun).1
  have hlt : c₁.height < maxNesting := by
    unfold Expr.height at hh
    omega
  refine ⟨{ c₁ with height := c₁.height + 1 }, ?_,
    ((hc.reads (by cases sign <;> simp [signKind])).cons hread).withHeight _⟩
  rw [runOn_atom, hc.kind_current]
  cases sign <;> exact runOn_signed_eq_ok.mpr ⟨e, c₁, hrun, hlt, rfl, rfl⟩

theorem returns_parens (hc : c.Before (mark .openParen :: (read ++ [mark .closeParen])) more)
    (h : Returns (inner n) c.advance e read) :
    Returns (atom (primary n)) c e (mark .openParen :: (read ++ [mark .closeParen])) := by
  obtain ⟨c₁, hrun, hread⟩ := h
  have hclose := (hc.advance (by simp)).behind hread
  refine ⟨_, ?_, (hc.reads (by simp)).cons (hread.trans (hclose.reads (by simp)))⟩
  rw [runOn_atom, hc.kind_current]
  exact runOn_parenthesized_eq_ok.mpr ⟨c₁, hrun, hclose.kind_current, rfl⟩

theorem returns_call {call : Call} (hc : c.Before call.yield more)
    (h : Returns (Parse.call (inner n)) c e call.yield) :
    Returns (atom (primary n)) c e call.yield := by
  obtain ⟨c₁, hrun, hread⟩ := h
  obtain ⟨x, ts, hyield⟩ := call.yield_eq
  rw [hyield] at hc
  have hnext : c.next.kind = .openParen := (hc.advance (by simp)).kind_current
  refine ⟨c₁, ?_, hread⟩
  rw [runOn_atom, hc.kind_current]
  exact (if_pos hnext).trans hrun

end Parse

namespace Grammar

open Parse

mutual

theorem Factor.returns (f : Factor) {c : Cursor} {more : List Terminal} {levels : Nat}
    (hc : c.Before f.yield more) (hmore : Follows 4 more) (ha : c.Allows levels f.nesting)
    (hh : f.tree.height ≤ maxNesting) : Returns (primary levels) c f.tree f.yield := by
  have hpos : 0 < f.nesting := by cases f <;> simp [Factor.nesting]
  obtain ⟨n, rfl⟩ := Nat.exists_eq_add_of_le' (Nat.le_trans hpos ha.levels)
  refine returns_primary (Nat.lt_of_lt_of_le (Nat.lt_add_of_pos_right hpos) ha.depth) ?_
  have hc := hc.withDepth (c.depth + 1)
  cases f with
  | literal l => exact returns_literal l hc
  | name x => exact returns_name hc hmore
  | call call => exact returns_call hc (call.returns hc ha.nested hh)
  | signed sign f =>
    have hend : signKind sign ≠ .endOfInput := by cases sign <;> simp [signKind]
    exact returns_signed hc hh (f.returns (hc.advance hend) hmore
      (ha.nested.of_reads (hc.reads hend)) (Nat.le_of_succ_le hh))
  | parens s =>
    have hread := hc.reads (by simp)
    have hbefore := hc.advance (by simp)
    exact returns_parens hc (s.returns hbefore.left (follows_closeParen _)
      (ha.nested.of_reads hread) hh)

theorem Call.returns (call : Call) {c : Cursor} {more : List Terminal} {n : Nat}
    (hc : c.Before call.yield more) (ha : c.Allows n call.nesting)
    (hh : call.tree.height ≤ maxNesting) :
    Returns (Parse.call (inner n)) c call.tree call.yield := by
  cases call with
  | plain x =>
    have hparen := hc.advance (by simp)
    have hclose := hparen.advance (by simp)
    refine ⟨_, runOn_call_eq_ok.mpr ⟨x, hc.kind_current, hc.text_current, hparen.kind_current,
      .inl ⟨hclose.kind_current, rfl, rfl⟩⟩, ?_⟩
    exact ((hc.reads (by simp)).cons
      ((hparen.reads (by simp)).cons (hclose.reads (by simp)))).withHeight 1
  | applied x args =>
    have hparen := hc.advance (by simp)
    have hargs := hparen.advance (by simp)
    have hread := (hc.reads (by simp)).cons (hparen.reads (by simp))
    obtain ⟨c₁, height, hrun, hread₁⟩ :=
      args.returns (c.advance.advance.final :: c.advance.advance.rest) 0 hargs
        (Nat.lt_succ_self _) (ha.of_reads hread) (Nat.le_of_succ_le hh)
    have hlt : height < maxNesting := by
      rw [Call.tree, Expr.height] at hh
      rw [arguments_height (measured_inner n) hrun, Nat.zero_max]
      exact hh
    have hclose : c.advance.advance.current.kind ≠ .closeParen := by
      rw [hargs.kind_firstKind, List.append_assoc]
      exact args.firstKind_yield_ne _
    exact ⟨_, runOn_call_eq_ok.mpr ⟨x, hc.kind_current, hc.text_current, hparen.kind_current,
      .inr ⟨hclose, _, height, c₁, hrun, hlt, rfl, rfl⟩⟩,
      (hread.trans hread₁).withHeight _⟩

theorem Args.returns (args : Args) {c : Cursor} {more : List Terminal} {n : Nat}
    (rounds : List Token) (highest : Nat)
    (hc : c.Before (args.yield ++ [mark .closeParen]) more)
    (hr : c.rest.length < rounds.length) (ha : c.Allows n args.nesting)
    (hh : Expr.maxHeight args.trees ≤ maxNesting) :
    ∃ c' height, (arguments (inner n) rounds highest).runOn c = (.ok (args.trees, height), c') ∧
      c.Reads (args.yield ++ [mark .closeParen]) c' := by
  cases rounds with
  | nil => cases hr
  | cons token rounds =>
    cases args with
    | last s =>
      rw [Args.trees, Expr.maxHeight, Expr.maxHeight, Nat.max_zero] at hh
      obtain ⟨c₁, hrun, hread⟩ := s.returns hc.left (follows_closeParen _) ha hh
      have hclose := hc.behind hread
      exact ⟨_, _, runOn_arguments_eq_ok.mpr
        ⟨_, c₁, hrun, .inl ⟨hclose.kind_current, rfl, rfl, rfl⟩⟩,
        hread.trans (hclose.reads (by simp))⟩
    | more s args =>
      rw [Args.trees, Expr.maxHeight] at hh
      rw [Args.yield, List.append_assoc] at hc
      obtain ⟨c₁, hrun, hread⟩ := s.returns hc.left (follows_comma _)
        (ha.mono (Nat.le_max_left _ _)) (Nat.le_trans (Nat.le_max_left _ _) hh)
      have hcomma := hc.behind hread
      have hread₁ := hread.trans (hcomma.reads (by simp))
      have hr₁ : c₁.advance.rest.length < rounds.length := hread₁.rounds_lt (by simp) hr
      obtain ⟨c₂, height, hmore, hread₂⟩ := args.returns rounds (max highest c₁.height)
        (hcomma.advance (by simp)) hr₁ ((ha.mono (Nat.le_max_right _ _)).of_reads hread₁)
        (Nat.le_trans (Nat.le_max_right _ _) hh)
      refine ⟨c₂, height, runOn_arguments_eq_ok.mpr
        ⟨_, c₁, hrun, .inr ⟨hcomma.kind_current, _, rfl, hmore⟩⟩, ?_⟩
      simpa [Args.yield] using hread₁.trans hread₂

theorem Term.returns (t : Term) {c : Cursor} {more : List Terminal} {n k : Nat}
    (hc : c.Before t.yield more) (hmore : Follows 2 more) (ha : c.Allows n t.nesting)
    (hh : t.tree.height ≤ maxNesting) :
    Returns (operators (primary n) (k + 2) 2) c t.tree t.yield := by
  rcases t with ⟨f, tail⟩
  obtain ⟨c₁, hrun, hread⟩ := f.returns hc.left (follows_termTail tail hmore)
    (ha.mono (Nat.le_max_left _ _)) (Nat.le_trans (tail.height_le_onto f.tree) hh)
  have hc₁ := hc.behind hread
  obtain ⟨c₂, rounds, hread₂, -, -, hgo⟩ := tail.goesOn (c₁.final :: c₁.rest) (Nat.le_succ 2) hc₁ hmore
    (Nat.lt_succ_self _) ((ha.mono (Nat.le_max_right _ _)).of_reads hread)
    (measured_primary n hrun).1 hh
  refine ⟨c₂, runOn_operators_eq_ok.mpr ⟨f.tree, c₁, hrun, hgo ?_⟩, hread.trans hread₂⟩
  refine runOn_chain_of_none ?_ _ _
  rw [(hc₁.done hread₂).kind_firstKind]
  exact hmore.noOperator

theorem TermTail.goesOn (tail : TermTail) {c : Cursor} {more : List Terminal} {n k : Nat}
    {least : Nat} (rounds : List Token) {lhs : Expr} (hleast : least ≤ 3)
    (hc : c.Before tail.yield more) (hmore : Follows 2 more)
    (hr : c.rest.length < rounds.length) (ha : c.Allows n tail.nesting)
    (hlhs : c.height = lhs.height) (hh : (tail.onto lhs).height ≤ maxNesting) :
    ∃ c' rounds', c.Reads tail.yield c' ∧ c'.rest.length < rounds'.length ∧
      c'.height = (tail.onto lhs).height ∧
      GoesOn (operators (primary n) (k + 1)) least rounds lhs c rounds' (tail.onto lhs) c' := by
  cases rounds with
  | nil => cases hr
  | cons token rounds =>
    cases tail with
    | done => exact ⟨c, _, .refl c, hr, hlhs, fun _ _ h => h⟩
    | more op f tail =>
      have hend : op.kind ≠ .endOfInput := by cases op <;> simp [MulOp.kind]
      have hf := hc.advance hend
      rw [TermTail.onto] at hh ⊢
      have hle := Nat.le_trans (tail.height_le_onto (.binary op.op lhs f.tree)) hh
      have hfh : f.tree.height ≤ maxNesting := by
        unfold Expr.height at hle
        omega
      obtain ⟨c₁, hrun, hread₁⟩ := returns_operators_four (k := k) (f.returns hf.left
        (follows_termTail tail hmore) ((ha.mono (Nat.le_max_left _ _)).of_reads (hc.reads hend)) hfh)
      have hread := ((hc.reads hend).cons hread₁).withHeight
        (Expr.binary op.op lhs f.tree).height
      obtain ⟨c₂, rounds₂, hread₂, hr₂, hheight₂, hgo⟩ := tail.goesOn rounds hleast
        ((hf.behind hread₁).withHeight _) hmore (hread.rounds_lt (by simp) hr)
        ((ha.mono (Nat.le_max_right _ _)).of_reads hread) rfl hh
      refine ⟨c₂, rounds₂, hread.trans hread₂, hr₂, hheight₂, fun e c'' h => ?_⟩
      refine goesOn_operator ?_ ?_ hlhs (measured_operators (measured_primary n) _ _ hrun).1 hle
        (hgo h)
      · rw [hc.kind_current]
        exact operatorOver?_mul hleast op
      · rw [bindingPower_mul]
        exact hrun

theorem Sum.returns (s : Grammar.Sum) {c : Cursor} {more : List Terminal} {n : Nat}
    (hc : c.Before s.yield more) (hmore : Follows 0 more) (ha : c.Allows n s.nesting)
    (hh : s.tree.height ≤ maxNesting) : Returns (inner n) c s.tree s.yield := by
  rcases s with ⟨⟨f, tail⟩, sums⟩
  rw [Sum.yield, Term.yield, List.append_assoc] at hc
  have hsums := follows_sumTail sums hmore
  have hterm := Nat.le_trans (sums.height_le_onto (tail.onto f.tree)) hh
  have hterms := ha.mono (Nat.le_max_left _ _)
  obtain ⟨c₁, hrun, hread⟩ := f.returns hc.left
    (by rw [List.append_assoc]; exact follows_termTail tail hsums)
    (hterms.mono (Nat.le_max_left _ _)) (Nat.le_trans (tail.height_le_onto f.tree) hterm)
  have hc₁ := hc.behind hread
  obtain ⟨c₂, rounds, hread₂, hr₂, hheight₂, hgo⟩ := tail.goesOn (c₁.final :: c₁.rest)
    (Nat.zero_le 3) hc₁.left hsums (Nat.lt_succ_self _)
    ((hterms.mono (Nat.le_max_right _ _)).of_reads hread) (measured_primary n hrun).1 hterm
  have hc₂ := hc₁.behind hread₂
  obtain ⟨c₃, rounds, hread₃, -, -, hgo₃⟩ := sums.goesOn rounds hc₂ hmore hr₂
    (((ha.mono (Nat.le_max_right _ _)).of_reads hread).of_reads hread₂) hheight₂ hh
  refine ⟨c₃, runOn_operators_eq_ok.mpr ⟨f.tree, c₁, hrun, hgo (hgo₃ ?_)⟩, ?_⟩
  · refine runOn_chain_of_none ?_ _ _
    rw [(hc₂.done hread₃).kind_firstKind]
    exact hmore.noOperator
  · simpa [Sum.yield, Term.yield] using hread.trans (hread₂.trans hread₃)

theorem SumTail.goesOn (tail : SumTail) {c : Cursor} {more : List Terminal} {n : Nat}
    (rounds : List Token) {lhs : Expr}
    (hc : c.Before tail.yield more) (hmore : Follows 0 more)
    (hr : c.rest.length < rounds.length) (ha : c.Allows n tail.nesting)
    (hlhs : c.height = lhs.height) (hh : (tail.onto lhs).height ≤ maxNesting) :
    ∃ c' rounds', c.Reads tail.yield c' ∧ c'.rest.length < rounds'.length ∧
      c'.height = (tail.onto lhs).height ∧
      GoesOn (operators (primary n) 2) 0 rounds lhs c rounds' (tail.onto lhs) c' := by
  cases rounds with
  | nil => cases hr
  | cons token rounds =>
    cases tail with
    | done => exact ⟨c, _, .refl c, hr, hlhs, fun _ _ h => h⟩
    | more op t tail =>
      have hend : op.kind ≠ .endOfInput := by cases op <;> simp [AddOp.kind]
      have ht := hc.advance hend
      rw [SumTail.onto] at hh ⊢
      have hle := Nat.le_trans (tail.height_le_onto (.binary op.op lhs t.tree)) hh
      have hth : t.tree.height ≤ maxNesting := by
        unfold Expr.height at hle
        omega
      obtain ⟨c₁, hrun, hread₁⟩ := t.returns (k := 0) ht.left (follows_sumTail tail hmore)
        ((ha.mono (Nat.le_max_left _ _)).of_reads (hc.reads hend)) hth
      have hread := ((hc.reads hend).cons hread₁).withHeight
        (Expr.binary op.op lhs t.tree).height
      obtain ⟨c₂, rounds₂, hread₂, hr₂, hheight₂, hgo⟩ := tail.goesOn rounds
        ((ht.behind hread₁).withHeight _) hmore (hread.rounds_lt (by simp) hr)
        ((ha.mono (Nat.le_max_right _ _)).of_reads hread) rfl hh
      refine ⟨c₂, rounds₂, hread.trans hread₂, hr₂, hheight₂, fun e c'' h => ?_⟩
      refine goesOn_operator ?_ ?_ hlhs (measured_operators (measured_primary n) _ _ hrun).1 hle
        (hgo h)
      · rw [hc.kind_current]
        exact operatorOver?_add (Nat.zero_le 1) op
      · rw [bindingPower_add]
        exact hrun

end

end Grammar

end Scriptlet
