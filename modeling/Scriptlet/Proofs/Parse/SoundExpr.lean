-- SUMMARY: Every expression that is read from a text has a derivation of the terminals that were read.
import Scriptlet.Proofs.Parse.Reads
import Scriptlet.Proofs.Parse.Steps

/-!
# Expressions that are read are derived

The loop over operators reads tails: tails of terms while it takes only products,
and tails of sums otherwise. A right operand of a sum ends where no product can
follow, so a loop that takes every operator meets products only before its first
sum.
-/
namespace Scriptlet

open Grammar
open Terminal (mark word)

namespace Parse

/-- What the reader returns is a factor, with at most `levels` of them nested. -/
def ReadsFactor (x : Parse Expr) (levels : Nat) : Prop :=
  ∀ ⦃c e c'⦄, c.Lexed → x.runOn c = (.ok e, c') →
    ∃ f : Factor, c.Reads f.yield c' ∧ f.tree = e ∧ f.nesting ≤ levels

/-- What the reader returns is a term, and no product follows it. -/
def ReadsTerm (x : Parse Expr) (levels : Nat) : Prop :=
  ∀ ⦃c e c'⦄, c.Lexed → x.runOn c = (.ok e, c') →
    ∃ t : Term, c.Reads t.yield c' ∧ t.tree = e ∧ t.nesting ≤ levels ∧
      operatorOver? 2 c'.current.kind = none

/-- What the reader returns is a sum. -/
def ReadsSum (x : Parse Expr) (levels : Nat) : Prop :=
  ∀ ⦃c e c'⦄, c.Lexed → x.runOn c = (.ok e, c') →
    ∃ s : Grammar.Sum, c.Reads s.yield c' ∧ s.tree = e ∧ s.nesting ≤ levels

variable {c c' : Cursor} {e lhs : Expr} {levels : Nat}

/-! ## Operators -/

theorem isMark_mul (m : MulOp) : m.kind.isMark := by
  cases m <;> rfl

theorem isMark_add (a : AddOp) : a.kind.isMark := by
  cases a <;> rfl

section
variable {operand : Nat → Parse Expr}

theorem readsTermTail (hfactor : ReadsFactor (operand 4) levels) {rounds : List Token}
    (hc : c.Lexed) (hrounds : c.rest.length < rounds.length)
    (h : (chain operand 2 rounds lhs).runOn c = (.ok e, c')) :
    ∃ tail : TermTail, c.Reads tail.yield c' ∧ tail.onto lhs = e ∧ tail.nesting ≤ levels ∧
      operatorOver? 2 c'.current.kind = none := by
  induction rounds generalizing c lhs with
  | nil => simp at hrounds
  | cons token rounds ih =>
    cases hop : operatorOver? 2 c.current.kind with
    | none =>
      rw [runOn_chain_of_none hop] at h
      cases h
      exact ⟨.done, .refl _, rfl, Nat.zero_le _, hop⟩
    | some op =>
      obtain ⟨rhs, c₁, hrhs, -, hmore⟩ := (runOn_chain_eq_ok hop).mp h
      obtain ⟨m, hk, rfl, -⟩ | ⟨_, _, _, hle⟩ := operatorOver?_eq_some hop
      · have hmark := hc.reads_mark hk (isMark_mul m)
        rw [bindingPower_mul] at hrhs
        obtain ⟨f, hf, rfl, hfn⟩ := hfactor (hc.of_reads hmark) hrhs
        have hread := (hmark.cons hf).withHeight (max c.height c₁.height + 1)
        obtain ⟨tail, ht, rfl, htn, hend⟩ :=
          ih (hc.of_reads hread) (hread.rounds_lt (by simp) hrounds) hmore
        exact ⟨.more m f tail, hread.trans ht, rfl, Nat.max_le.mpr ⟨hfn, htn⟩, hend⟩
      · omega

/-- A loop that takes every operator reads a tail of a term and then one of a sum. -/
theorem readsTails (hfactor : ReadsFactor (operand 4) levels)
    (hterm : ReadsTerm (operand 2) levels) {rounds : List Token}
    (hc : c.Lexed) (hrounds : c.rest.length < rounds.length)
    (h : (chain operand 0 rounds lhs).runOn c = (.ok e, c')) :
    ∃ (tail : TermTail) (sums : SumTail), c.Reads (tail.yield ++ sums.yield) c' ∧
      sums.onto (tail.onto lhs) = e ∧ tail.nesting ≤ levels ∧ sums.nesting ≤ levels := by
  induction rounds generalizing c lhs with
  | nil => simp at hrounds
  | cons token rounds ih =>
    cases hop : operatorOver? 0 c.current.kind with
    | none =>
      rw [runOn_chain_of_none hop] at h
      cases h
      exact ⟨.done, .done, .refl _, rfl, Nat.zero_le _, Nat.zero_le _⟩
    | some op =>
      obtain ⟨rhs, c₁, hrhs, -, hmore⟩ := (runOn_chain_eq_ok hop).mp h
      obtain ⟨m, hk, rfl, -⟩ | ⟨a, hk, rfl, -⟩ := operatorOver?_eq_some hop
      · have hmark := hc.reads_mark hk (isMark_mul m)
        rw [bindingPower_mul] at hrhs
        obtain ⟨f, hf, rfl, hfn⟩ := hfactor (hc.of_reads hmark) hrhs
        have hread := (hmark.cons hf).withHeight (max c.height c₁.height + 1)
        obtain ⟨tail, sums, ht, rfl, htn, hsn⟩ :=
          ih (hc.of_reads hread) (hread.rounds_lt (by simp) hrounds) hmore
        refine ⟨.more m f tail, sums, ?_, rfl, Nat.max_le.mpr ⟨hfn, htn⟩, hsn⟩
        simpa [TermTail.yield] using hread.trans ht
      · have hmark := hc.reads_mark hk (isMark_add a)
        rw [bindingPower_add] at hrhs
        obtain ⟨t, ht, rfl, htn, hend⟩ := hterm (hc.of_reads hmark) hrhs
        have hread := (hmark.cons ht).withHeight (max c.height c₁.height + 1)
        obtain ⟨tail, sums, hs, rfl, -, hsn⟩ :=
          ih (hc.of_reads hread) (hread.rounds_lt (by simp) hrounds) hmore
        cases tail with
        | done =>
          refine ⟨.done, .more a t sums, ?_, rfl, Nat.zero_le _, Nat.max_le.mpr ⟨htn, hsn⟩⟩
          simpa [TermTail.yield, SumTail.yield] using hread.trans hs
        | more m f tail =>
          -- The right operand would have taken this product.
          have hk := Cursor.kind_current hs.terminals
          rw [show c₁.current.kind = m.kind from hk, operatorOver?_mul (by decide)] at hend
          cases hend

end

theorem readsFactor_operators {primary : Parse Expr} (hp : ReadsFactor primary levels)
    (n : Nat) : ReadsFactor (operators primary (n + 1) 4) levels := by
  intro c e c' hc h
  obtain ⟨lhs, c₁, hlhs, hchain⟩ := runOn_operators_eq_ok.mp h
  rw [runOn_chain_of_none (operatorOver?_four _)] at hchain
  cases hchain
  exact hp hc hlhs

theorem readsTerm_operators {primary : Parse Expr} (hp : ReadsFactor primary levels)
    (n : Nat) : ReadsTerm (operators primary (n + 2) 2) levels := by
  intro c e c' hc h
  obtain ⟨lhs, c₁, hlhs, hchain⟩ := runOn_operators_eq_ok.mp h
  obtain ⟨f, hf, rfl, hfn⟩ := hp hc hlhs
  obtain ⟨tail, ht, rfl, htn, hend⟩ :=
    readsTermTail (readsFactor_operators hp n) (hc.of_reads hf) (Nat.lt_succ_self _) hchain
  exact ⟨.mk f tail, hf.trans ht, rfl, Nat.max_le.mpr ⟨hfn, htn⟩, hend⟩

theorem readsSum_operators {primary : Parse Expr} (hp : ReadsFactor primary levels)
    (n : Nat) : ReadsSum (operators primary (n + 3) 0) levels := by
  intro c e c' hc h
  obtain ⟨lhs, c₁, hlhs, hchain⟩ := runOn_operators_eq_ok.mp h
  obtain ⟨f, hf, rfl, hfn⟩ := hp hc hlhs
  obtain ⟨tail, sums, ht, rfl, htn, hsn⟩ :=
    readsTails (readsFactor_operators hp (n + 1)) (readsTerm_operators hp n) (hc.of_reads hf)
      (Nat.lt_succ_self _) hchain
  refine ⟨.mk (.mk f tail) sums, ?_, rfl,
    Nat.max_le.mpr ⟨Nat.max_le.mpr ⟨hfn, htn⟩, hsn⟩⟩
  simpa [Grammar.Sum.yield, Term.yield] using hf.trans ht

/-! ## Calls -/

theorem readsArgs {expr : Parse Expr} (hs : ReadsSum expr levels) {rounds : List Token}
    {highest height : Nat} {es : List Expr} (hc : c.Lexed)
    (h : (arguments expr rounds highest).runOn c = (.ok (es, height), c')) :
    ∃ args : Args, c.Reads (args.yield ++ [mark .closeParen]) c' ∧ args.trees = es ∧
      args.nesting ≤ levels := by
  induction rounds generalizing c highest es with
  | nil => simp [arguments] at h
  | cons token rounds ih =>
    obtain ⟨e, c₁, he, hmore⟩ := runOn_arguments_eq_ok.mp h
    obtain ⟨s, hread, rfl, hn⟩ := hs hc he
    have hc₁ := hc.of_reads hread
    obtain ⟨hk, rfl, -, rfl⟩ | ⟨hk, es', rfl, hmore⟩ := hmore
    · exact ⟨.last s, hread.trans (hc₁.reads_mark hk rfl), rfl, hn⟩
    · have hcomma := hc₁.reads_mark hk rfl
      obtain ⟨args, hargs, rfl, hargsn⟩ := ih (hc₁.of_reads hcomma) hmore
      refine ⟨.more s args, ?_, rfl, Nat.max_le.mpr ⟨hn, hargsn⟩⟩
      simpa [Args.yield] using hread.trans (hcomma.cons hargs)

theorem reads_call {expr : Parse Expr} (hs : ReadsSum expr levels) (hc : c.Lexed)
    (h : (call expr).runOn c = (.ok e, c')) :
    ∃ call : Call, c.Reads call.yield c' ∧ call.tree = e ∧ call.nesting ≤ levels := by
  obtain ⟨x, hk, ht, hopen, hargs⟩ := runOn_call_eq_ok.mp h
  have hword := hc.reads_word hk ht
  have hparen := (hc.of_reads hword).reads_mark hopen rfl
  have hc₂ := hc.of_reads (hword.cons hparen)
  obtain ⟨hclose, rfl, rfl⟩ | ⟨-, es, height, c₁, hargs, -, rfl, rfl⟩ := hargs
  · have hclose := hc₂.reads_mark hclose rfl
    exact ⟨.plain x, (hword.cons (hparen.cons hclose)).withHeight 1, rfl, Nat.zero_le _⟩
  · obtain ⟨args, hread, rfl, hn⟩ := readsArgs hs hc₂ hargs
    exact ⟨.applied x args, (hword.cons (hparen.cons hread)).withHeight _, rfl, hn⟩

/-! ## Primary expressions -/

/-- A literal is read from a terminal that is in range. -/
theorem reads_literal {l : Literal} (hc : c.Lexed) (hl : c.current.terminal = l.terminal)
    (hrange : l.terminal.InRange) :
    Cursor.Reads c [l.terminal] { c.advance with height := 1 } := by
  have hend : l.terminal.kind ≠ .endOfInput := by
    cases l <;> simp [Literal.terminal]
  have hterminals := hc.terminals_eq fun h => hend (by rw [← hl]; exact h)
  rw [hl] at hterminals
  exact (Cursor.reads_advance hterminals ⟨hend, hrange⟩).withHeight 1

theorem reads_integer (hc : c.Lexed) (hk : c.current.kind = .integer)
    (h : (number Decimal.readInt64? .int).runOn c = (.ok e, c')) :
    ∃ l : Literal, c.Reads [l.terminal] c' ∧ l.tree = e := by
  obtain ⟨a, hread, rfl, rfl⟩ := runOn_number_eq_ok.mp h
  have hlexed := hc.current (by simp [hk])
  simp only [Terminal.Lexed, Token.terminal, hk] at hlexed
  obtain ⟨digits, htext, hdigits⟩ := hlexed
  rw [htext, Option.getD_some, Decimal.readInt64?_of_isWhole hdigits] at hread
  split at hread
  · rename_i hlt
    cases hread
    refine ⟨.integer digits, reads_literal hc ?_ fun _ => hlt, rfl⟩
    rw [Token.terminal, hk, htext]
    rfl
  · cases hread

theorem reads_float (hc : c.Lexed) (hk : c.current.kind = .float)
    (h : (number Decimal.readFloat? .float).runOn c = (.ok e, c')) :
    ∃ l : Literal, c.Reads [l.terminal] c' ∧ l.tree = e := by
  obtain ⟨a, hread, rfl, rfl⟩ := runOn_number_eq_ok.mp h
  have hlexed := hc.current (by simp [hk])
  simp only [Terminal.Lexed, Token.terminal, hk] at hlexed
  obtain ⟨s, htext, -⟩ := hlexed
  rw [htext, Option.getD_some] at hread
  refine ⟨.float s, reads_literal hc ?_ (by simp [Terminal.InRange, Literal.terminal]), ?_⟩
  · rw [Token.terminal, hk, htext]
    rfl
  · rw [Literal.tree, hread, Option.getD_some]

theorem reads_string (hc : c.Lexed) (hk : c.current.kind = .string)
    (h : (leaf (.string (c.current.text.getD ""))).runOn c = (.ok e, c')) :
    ∃ l : Literal, c.Reads [l.terminal] c' ∧ l.tree = e := by
  cases h
  have hlexed := hc.current (by simp [hk])
  simp only [Terminal.Lexed, Token.terminal, hk] at hlexed
  obtain ⟨s, htext⟩ := hlexed
  refine ⟨.string s, reads_literal hc ?_ (by simp [Terminal.InRange, Literal.terminal]), ?_⟩
  · rw [Token.terminal, hk, htext]
    rfl
  · rw [htext]
    rfl

theorem reads_null (hc : c.Lexed) (hk : c.current.kind = .null)
    (h : (leaf .null).runOn c = (.ok e, c')) :
    ∃ l : Literal, c.Reads [l.terminal] c' ∧ l.tree = e := by
  cases h
  exact ⟨.null, (hc.reads_mark hk rfl).withHeight 1, rfl⟩

theorem reads_name (hc : c.Lexed) (h : name.runOn c = (.ok e, c')) :
    ∃ x, c.Reads [word x] c' ∧ .name x = e := by
  obtain ⟨x, hk, ht, rfl, rfl⟩ := runOn_name_eq_ok.mp h
  exact ⟨x, (hc.reads_word hk ht).withHeight 1, rfl⟩

theorem reads_signed {primary : Parse Expr} {sign : UnaryOp} (hp : ReadsFactor primary levels)
    (hc : c.Lexed) (h : (signed sign primary).runOn c = (.ok e, c'))
    (hk : c.current.kind = signKind sign) :
    ∃ f : Factor, c.Reads f.yield c' ∧ f.tree = e ∧ f.nesting ≤ levels + 1 := by
  obtain ⟨e₁, c₁, he, -, rfl, rfl⟩ := runOn_signed_eq_ok.mp h
  have hmark := hc.reads_mark hk (by cases sign <;> rfl)
  obtain ⟨f, hf, rfl, hn⟩ := hp (hc.of_reads hmark) he
  exact ⟨.signed sign f, (hmark.cons hf).withHeight _, rfl, Nat.succ_le_succ hn⟩

theorem reads_parenthesized {expr : Parse Expr} (hs : ReadsSum expr levels)
    (hc : c.Lexed) (hk : c.current.kind = .openParen)
    (h : (parenthesized expr).runOn c = (.ok e, c')) :
    ∃ f : Factor, c.Reads f.yield c' ∧ f.tree = e ∧ f.nesting ≤ levels + 1 := by
  obtain ⟨c₁, he, hclose, rfl⟩ := runOn_parenthesized_eq_ok.mp h
  have hopen := hc.reads_mark hk rfl
  obtain ⟨s, hread, rfl, hn⟩ := hs (hc.of_reads hopen) he
  have hclose := (hc.of_reads (hopen.cons hread)).reads_mark hclose rfl
  exact ⟨.parens s, hopen.cons (hread.trans hclose), rfl, Nat.succ_le_succ hn⟩

theorem readsFactor_atom {primary : Parse Expr} (hp : ReadsFactor primary levels) :
    ReadsFactor (atom primary) (levels + 1) := by
  intro c e c' hc h
  have hsum : ReadsSum (operators primary operatorLevels 0) levels := readsSum_operators hp 0
  have hliteral : (∃ l : Literal, c.Reads [l.terminal] c' ∧ l.tree = e) →
      ∃ f : Factor, c.Reads f.yield c' ∧ f.tree = e ∧ f.nesting ≤ levels + 1 :=
    fun ⟨l, hl, htree⟩ => ⟨.literal l, hl, htree, Nat.succ_le_succ (Nat.zero_le _)⟩
  rw [runOn_atom] at h
  cases hk : c.current.kind <;> simp only [hk] at h
  case integer => exact hliteral (reads_integer hc hk h)
  case float => exact hliteral (reads_float hc hk h)
  case string => exact hliteral (reads_string hc hk h)
  case null => exact hliteral (reads_null hc hk h)
  case identifier =>
    split at h
    · obtain ⟨call, hread, htree, hn⟩ := reads_call hsum hc h
      exact ⟨.call call, hread, htree, Nat.succ_le_succ hn⟩
    · obtain ⟨x, hread, htree⟩ := reads_name hc h
      exact ⟨.name x, hread, htree, Nat.succ_le_succ (Nat.zero_le _)⟩
  case plus => exact reads_signed hp hc h hk
  case minus => exact reads_signed hp hc h hk
  case openParen => exact reads_parenthesized hsum hc hk h
  all_goals cases h

theorem readsFactor_primary (levels : Nat) : ReadsFactor (primary levels) levels := by
  induction levels with
  | zero => intro c e c' _ h; cases h
  | succ levels ih =>
    intro c e c' hc h
    obtain ⟨-, c₁, hatom, rfl⟩ := runOn_primary_eq_ok.mp h
    have hc : Cursor.Lexed { c with depth := c.depth + 1 } := ⟨hc.final, hc.lexed⟩
    obtain ⟨f, hf, htree, hn⟩ := readsFactor_atom ih hc hatom
    exact ⟨f, hf.nested, htree, hn⟩

theorem readsSum_expr : ReadsSum expr maxNesting := readsSum_operators (readsFactor_primary _) 0

end Parse

end Scriptlet
