-- SUMMARY: A reader reads a word of its language, and where it expects something else it has read the beginning of one.
import Mathlib.Data.Finset.Image
import Mathlib.Data.Fintype.EquivFin
import Scriptlet.Proofs.Parse.Moves
import Scriptlet.Proofs.Parse.Params
import Scriptlet.Proofs.Parse.SoundExpr

/-!
# What readers read

The language of a reader is a set of words for each value that it may return. What a
reader that returned has read is a word for that value. Where a reader stops because it
expects something else, what was read before can be completed to a word. The limits
on nesting and heights do not matter to this.
-/
namespace Scriptlet

open Grammar
open Scriptlet.Action
open Terminal (mark word)

/-! ## Words -/

/-- A terminal that a text may have, and a program. -/
structure Terminal.Usual (t : Terminal) : Prop extends t.Readable where
  lexed : t.Lexed

theorem Terminal.usual_mark {kind : Token.Kind} (hm : kind.isMark) : (mark kind).Usual :=
  ⟨readable_mark hm, by cases kind <;> first | rfl | cases hm⟩

theorem Terminal.usual_word (x : String) : (word x).Usual :=
  ⟨readable_of_kind (by simp) (by simp), ⟨x, rfl⟩⟩

namespace Parse

variable {α β : Type} {before u v : List Terminal} {x : Parse α} {N : α → List Terminal → Prop}
  {M : β → List Terminal → Prop} {f : α → Parse β} {c c₁ : Cursor}

/-- Behind `before` may stand something that makes it a word. -/
def Completes (before : List Terminal) (N : α → List Terminal → Prop) : Prop :=
  ∃ more, (∀ t ∈ more, t.Usual) ∧ ∃ a, N a (before ++ more)

/-- What a reader that was to go on from `before` has read up to some cursor. -/
def Outcome (c : Cursor) (before : List Terminal) (N : α → List Terminal → Prop) :
    Except ParseError α × Cursor → Prop
  | (.ok a, c') => ∃ read, c.Reads read c' ∧ N a (before ++ read)
  | (.error e, c') => e.IsUnexpected → (∃ expected, e = c'.unexpected expected) ∧
    ∃ read, c.Reads read c' ∧ Completes (before ++ read) N

/-- The reader goes on from `before` to a word, wherever it stops. -/
def GoesTo (x : Parse α) (before : List Terminal) (N : α → List Terminal → Prop) : Prop :=
  ∀ c : Cursor, c.Lexed → Outcome c before N (x.runOn c)

/-- The reader goes on from `before` to a word, and there are words to go to. -/
structure Continues (x : Parse α) (before : List Terminal) (N : α → List Terminal → Prop) :
    Prop where
  goesTo : GoesTo x before N
  completes : Completes before N

/-- The language of the reader. -/
abbrev ReadsWord (x : Parse α) (N : α → List Terminal → Prop) : Prop := Continues x [] N

theorem Completes.of_append (h : Completes (before ++ u) N) (hu : ∀ t ∈ u, t.Usual) :
    Completes before N := by
  obtain ⟨more, hmore, a, hword⟩ := h
  exact ⟨u ++ more, List.forall_mem_append.mpr ⟨hu, hmore⟩, a, by rwa [← List.append_assoc]⟩

theorem completes_self (a : α) (h : N a before) : Completes before N :=
  ⟨[], nofun, a, by rwa [List.append_nil]⟩

/-- What is read behind a part that was read. -/
theorem Outcome.behind {r : Except ParseError α × Cursor} (hread : c.Reads u c₁)
    (h : Outcome c₁ (before ++ u) N r) : Outcome c before N r := by
  rcases r with ⟨e | a, c'⟩
  · intro he
    obtain ⟨hexpected, read, hread', hcompletes⟩ := h he
    exact ⟨hexpected, u ++ read, hread.trans hread', by rwa [← List.append_assoc]⟩
  · obtain ⟨read, hread', hword⟩ := h
    exact ⟨u ++ read, hread.trans hread', by rwa [← List.append_assoc]⟩

namespace Continues

/-! ## Sequences -/

theorem pure (a : α) (h : N a before) : Continues (pure a) before N where
  goesTo c _ := ⟨[], .refl c, by rwa [List.append_nil]⟩
  completes := completes_self a h

theorem unexpected (expected : Expected) (h : Completes before N) :
    Continues (unexpected expected) before N where
  goesTo c _ _ := ⟨⟨expected, rfl⟩, [], .refl c, by rwa [List.append_nil]⟩
  completes := h

theorem throw {e : ParseError} (he : ¬ e.IsUnexpected) (h : Completes before N) :
    Continues (throw e) before N where
  goesTo _ _ h := absurd h he
  completes := h

theorem bind (hx : ReadsWord x N) (hf : ∀ a u, N a u → Continues (f a) (before ++ u) M) :
    Continues (x >>= f) before M where
  goesTo c hc := by
    have hout := hx.goesTo c hc
    rcases hrun : x.runOn c with ⟨e | a, c₁⟩ <;> rw [hrun] at hout
    · rw [runOn_bind_error hrun]
      intro he
      obtain ⟨hexpected, read, hread, more, hmore, a, hword⟩ := hout he
      -- What completes the first part may be followed by any second part.
      have hcompletes := (hf a _ hword).completes
      rw [List.nil_append, ← List.append_assoc] at hcompletes
      exact ⟨hexpected, read, hread, hcompletes.of_append hmore⟩
    · rw [runOn_bind_ok hrun]
      obtain ⟨read, hread, hword⟩ := hout
      exact ((hf a read hword).goesTo c₁ (hc.of_reads hread)).behind hread
  completes := by
    obtain ⟨u, hu, a, hword⟩ := hx.completes
    exact (hf a u hword).completes.of_append hu

theorem map (hx : ReadsWord x N) {g : α → β} (h : ∀ a u, N a u → M (g a) (before ++ u)) :
    Continues (g <$> x) before M := by
  rw [map_eq_pure_bind]
  exact bind hx fun a u hu => pure (g a) (h a u hu)

/-- What is read last. -/
theorem last {L : α → List Terminal → Prop} (hx : ReadsWord x L)
    (h : ∀ a u, L a u → N a (before ++ u)) : Continues x before N := by
  rw [← bind_pure x]
  exact bind hx fun a u hu => pure a (h a u hu)

theorem get {f : Cursor → Parse α} (h : ∀ c, Continues (f c) before N) :
    Continues (get >>= f) before N where
  goesTo c hc := (h c).goesTo c hc
  completes := (h ⟨[], Token.atEnd 0, 0, 0⟩).completes

theorem current {f : Token → Parse α} (h : ∀ t, Continues (f t) before N) :
    Continues (current >>= f) before N where
  goesTo c hc := (h c.current).goesTo c hc
  completes := (h (Token.atEnd 0)).completes

theorem rounds {f : List Token → Parse α} (h : ∀ rounds, Continues (f rounds) before N) :
    Continues (rounds >>= f) before N where
  goesTo c hc := (h (c.final :: c.rest)).goesTo c hc
  completes := (h []).completes

/-- What is known of what was read by a reader that returned, as far as any word is one of these. -/
theorem exact {L : α → List Terminal → Prop} (hx : ReadsWord x N)
    (hreads : ∀ ⦃c a c'⦄, c.Lexed → x.runOn c = (.ok a, c') → ∃ read, c.Reads read c' ∧ L a read)
    (h : ∀ a u, N a u → ∃ b, L b u) : ReadsWord x L := by
  have hcompletes {u : List Terminal} : Completes u N → Completes u L :=
    fun ⟨more, hmore, a, hword⟩ => ⟨more, hmore, h a _ hword⟩
  refine ⟨fun c hc => ?_, hcompletes hx.completes⟩
  have hout := hx.goesTo c hc
  rcases hrun : x.runOn c with ⟨e | a, c'⟩ <;> rw [hrun] at hout
  · intro he
    obtain ⟨hexpected, read, hread, hword⟩ := hout he
    exact ⟨hexpected, read, hread, hcompletes hword⟩
  · exact hreads hc hrun

/-! ## Tokens -/

theorem ifEat {kind : Token.Kind} {y : Parse α} (hm : kind.isMark)
    (hx : Continues x (before ++ [mark kind]) N) (hy : Continues y before N) :
    Continues (do if ← eat kind then x else y) before N where
  goesTo c hc := by
    rw [runOn_ifEat]
    split
    · have hread := hc.reads_mark ‹_› hm
      exact (hx.goesTo _ (hc.of_reads hread)).behind hread
    · exact hy.goesTo c hc
  completes := hy.completes

theorem expect {kind : Token.Kind} (hm : kind.isMark) :
    ReadsWord (expect kind) fun _ u => u = [mark kind] where
  goesTo c hc := by
    rw [runOn_expect]
    split
    · exact ⟨_, hc.reads_mark ‹_› hm, rfl⟩
    · exact fun _ => ⟨⟨_, rfl⟩, [], .refl c, [mark kind], by simpa using Terminal.usual_mark hm, (),
        rfl⟩
  completes := ⟨[mark kind], by simpa using Terminal.usual_mark hm, (), rfl⟩

/-- Which name completes what was read may depend on what is to be read behind it. -/
theorem goesTo_ident {f : String → Parse α} (h : ∀ x, GoesTo (f x) (before ++ [word x]) N)
    (hcompletes : Completes before N) : Continues (ident >>= f) before N where
  goesTo c hc := by
    rw [runOn_bind, runOn_ident]
    cases hx : c.current.name? with
    | none => exact fun _ => ⟨⟨_, rfl⟩, [], .refl c, by rwa [List.append_nil]⟩
    | some x =>
      obtain ⟨hk, ht⟩ := Token.name?_eq_some.mp hx
      have hread := hc.reads_word hk ht
      exact (h x _ (hc.of_reads hread)).behind hread
  completes := hcompletes

theorem ident {f : String → Parse α} (h : ∀ x, Continues (f x) (before ++ [word x]) N) :
    Continues (ident >>= f) before N :=
  goesTo_ident (fun x => (h x).goesTo)
    ((h "x").completes.of_append (by simpa using Terminal.usual_word "x"))

/-! ## Heights and nesting -/

theorem setHeight (height : Nat) :
    ReadsWord (modify fun c => { c with height }) fun _ u => u = [] where
  goesTo c _ := ⟨[], (Cursor.Reads.refl c).withHeight height, rfl⟩
  completes := completes_self () rfl

theorem grow (below offset : Nat) : ReadsWord (grow below offset) fun _ u => u = [] where
  goesTo c _ := by
    rw [runOn_grow]
    split
    · exact nofun
    · exact ⟨[], (Cursor.Reads.refl c).withHeight _, rfl⟩
  completes := completes_self () rfl

theorem nested (h : ReadsWord x N) : ReadsWord (nested x) N where
  goesTo c hc := by
    rw [runOn_nested]
    split
    · exact nofun
    · have hout := h.goesTo { c with depth := c.depth + 1 } ⟨hc.final, hc.lexed⟩
      generalize x.runOn { c with depth := c.depth + 1 } = r at hout ⊢
      rcases r with ⟨e | a, c'⟩
      · intro he
        obtain ⟨⟨expected, rfl⟩, read, hread, hcompletes⟩ := hout he
        exact ⟨⟨expected, rfl⟩, read, hread.nested, hcompletes⟩
      · obtain ⟨read, hread, hword⟩ := hout
        exact ⟨read, hread.nested, hword⟩
  completes := h.completes

end Continues

/-! ## Expressions -/

/-- Operators and factors behind a factor. -/
inductive OperatorTail : List Terminal → Prop
  | done : OperatorTail []
  | more {kind : Token.Kind} (hk : (∃ m : MulOp, kind = m.kind) ∨ ∃ a : AddOp, kind = a.kind)
      (f : Factor) {w : List Terminal} (hw : OperatorTail w) :
      OperatorTail (mark kind :: (f.yield ++ w))

theorem OperatorTail.append (hu : OperatorTail u) (hv : OperatorTail v) :
    OperatorTail (u ++ v) := by
  induction hu with
  | done => exact hv
  | more hk f _ ih =>
    rw [List.cons_append, List.append_assoc]
    exact .more hk f ih

/-- Products up to the first sum belong to the first term. -/
theorem OperatorTail.exists_tails (h : OperatorTail u) :
    ∃ (tail : TermTail) (sums : SumTail), u = tail.yield ++ sums.yield := by
  induction h with
  | done => exact ⟨.done, .done, rfl⟩
  | more hk f _ ih =>
    obtain ⟨tail, sums, rfl⟩ := ih
    obtain ⟨m, rfl⟩ | ⟨a, rfl⟩ := hk
    · exact ⟨.more m f tail, sums, by simp [TermTail.yield]⟩
    · exact ⟨.done, .more a (.mk f tail) sums, by simp [TermTail.yield, SumTail.yield, Term.yield]⟩

/-- The reader reads factors. -/
abbrev FactorWord (_ : Expr) (u : List Terminal) : Prop := ∃ f : Factor, u = f.yield

/-- The reader reads sums. -/
abbrev SumWord (_ : Expr) (u : List Terminal) : Prop := ∃ s : Grammar.Sum, u = s.yield

/-- The reader reads factors with operators between them. Whatever the least power is that these
bind with, it is a sum. -/
abbrev OperandWord (_ : Expr) (u : List Terminal) : Prop :=
  ∃ (f : Factor) (t : List Terminal), OperatorTail t ∧ u = f.yield ++ t

theorem OperandWord.sumWord {e : Expr} (h : OperandWord e u) : SumWord e u := by
  obtain ⟨f, t, ht, rfl⟩ := h
  obtain ⟨tail, sums, rfl⟩ := ht.exists_tails
  exact ⟨.mk (.mk f tail) sums, by simp [Grammar.Sum.yield, Term.yield]⟩

theorem completes_factor : Completes [] FactorWord :=
  ⟨[mark .null], by simpa using Terminal.usual_mark rfl, .null, .literal .null, rfl⟩

section
variable {expr primary : Parse Expr} {operand : Nat → Parse Expr}

theorem readsWord_name : ReadsWord name FactorWord := by
  refine .ident fun x => .bind (.setHeight 1) ?_
  rintro _ _ rfl
  exact .pure _ ⟨.name x, rfl⟩

theorem readsWord_arguments (hexpr : ReadsWord expr SumWord) (rounds : List Token)
    (highest : Nat) :
    ReadsWord (arguments expr rounds highest)
      fun _ u => ∃ args : Args, u = args.yield ++ [mark .closeParen] := by
  have hnull : (mark .null).Usual := Terminal.usual_mark rfl
  induction rounds generalizing highest with
  | nil =>
    refine .unexpected _ ⟨[mark .null, mark .closeParen], ?_, ([], 0), ?_⟩
    · simpa using ⟨hnull, Terminal.usual_mark rfl⟩
    · exact ⟨.last (.mk (.mk (.literal .null) .done) .done), rfl⟩
  | cons token rounds ih =>
    refine .bind hexpr ?_
    rintro e _ ⟨s, rfl⟩
    refine .get fun c => .ifEat rfl (.pure _ ⟨.last s, rfl⟩) (.ifEat rfl ?_ (.unexpected _ ?_))
    · refine .bind (ih _) ?_
      rintro more _ ⟨args, rfl⟩
      exact .pure _ ⟨.more s args, by simp [Args.yield]⟩
    · exact ⟨[mark .closeParen], by simpa using Terminal.usual_mark rfl, ([], 0), .last s, rfl⟩

theorem readsWord_call (hexpr : ReadsWord expr SumWord) :
    ReadsWord (call expr) fun _ u => ∃ call : Call, u = call.yield := by
  refine .current fun t => .ident fun x => .bind (.expect rfl) ?_
  rintro _ _ rfl
  refine .ifEat rfl ?_ (.rounds fun rounds => .bind (readsWord_arguments hexpr rounds 0) ?_)
  · rw [pure_bind]
    refine .bind (.grow _ _) ?_
    rintro _ _ rfl
    exact .pure _ ⟨.plain x, rfl⟩
  · rintro ⟨es, highest⟩ _ ⟨args, rfl⟩
    refine .bind (.grow _ _) ?_
    rintro _ _ rfl
    exact .pure _ ⟨.applied x args, by simp [Call.yield]⟩

/-- What is read behind a mark that was seen. -/
theorem outcome_advance {kind : Token.Kind} (hc : c.Lexed) (hk : c.current.kind = kind)
    (hm : kind.isMark) (hx : GoesTo x (before ++ [mark kind]) N) :
    Outcome c before N (x.runOn c.advance) := by
  have hread := hc.reads_mark hk hm
  exact (hx _ (hc.of_reads hread)).behind hread

theorem readsWord_chain (hoperand : ∀ least, ReadsWord (operand least) OperandWord) (least : Nat)
    (rounds : List Token) (lhs : Expr) :
    ReadsWord (chain operand least rounds lhs) fun _ u => OperatorTail u := by
  induction rounds generalizing lhs with
  | nil => exact .pure lhs .done
  | cons token rounds ih =>
    refine ⟨fun c hc => ?_, completes_self lhs .done⟩
    cases hop : operatorOver? least c.current.kind with
    | none =>
      rw [runOn_chain_of_none hop]
      exact ⟨[], .refl c, .done⟩
    | some op =>
      obtain ⟨hk, hm⟩ : ((∃ m : MulOp, c.current.kind = m.kind) ∨
          ∃ a : AddOp, c.current.kind = a.kind) ∧ c.current.kind.isMark := by
        obtain ⟨m, hk, -⟩ | ⟨a, hk, -⟩ := operatorOver?_eq_some hop
        · exact ⟨.inl ⟨m, hk⟩, hk ▸ isMark_mul m⟩
        · exact ⟨.inr ⟨a, hk⟩, hk ▸ isMark_add a⟩
      rw [chain, runOn_bind_ok (runOn_operator? least c), hop]
      refine outcome_advance hc rfl hm (Continues.goesTo (.bind (hoperand _) ?_))
      rintro rhs _ ⟨f, t, ht, rfl⟩
      refine .get fun c' => .bind (.grow _ _) ?_
      rintro _ _ rfl
      refine .last (ih _) fun _ u hu => ?_
      have htail := OperatorTail.more hk f (ht.append hu)
      simpa using htail

theorem readsWord_operators (hprimary : ReadsWord primary FactorWord) (levels least : Nat) :
    ReadsWord (operators primary levels least) OperandWord := by
  induction levels generalizing least with
  | zero =>
    refine .last hprimary ?_
    rintro e _ ⟨f, rfl⟩
    exact ⟨f, [], .done, by simp⟩
  | succ levels ih =>
    refine .bind hprimary ?_
    rintro lhs _ ⟨f, rfl⟩
    refine .rounds fun rounds => .last (readsWord_chain ih least rounds lhs) fun e u hu => ?_
    exact ⟨f, u, hu, rfl⟩

theorem readsWord_sum (hprimary : ReadsWord primary FactorWord) :
    ReadsWord (operators primary operatorLevels 0) SumWord :=
  .last (readsWord_operators hprimary _ _) fun _ _ hu => hu.sumWord

/-- A literal is read, or its number is out of range. -/
theorem outcome_number {read? : List Char → Option α} {make : α → Expr}
    (h : ∀ e c', (number read? make).runOn c = (.ok e, c') →
      ∃ l : Literal, c.Reads [l.terminal] c' ∧ l.tree = e) :
    Outcome c [] FactorWord ((number read? make).runOn c) := by
  rcases hrun : (number read? make).runOn c with ⟨e | e, c'⟩
  · rw [number, runOn_bind_ok (runOn_current c)] at hrun
    dsimp only at hrun
    split at hrun <;> cases hrun
    rintro ⟨⟩
  · obtain ⟨l, hread, -⟩ := h e c' hrun
    exact ⟨_, hread, .literal l, rfl⟩

theorem outcome_signed (hprimary : ReadsWord primary FactorWord) {sign : UnaryOp} (hc : c.Lexed)
    (hk : c.current.kind = signKind sign) :
    Outcome c [] FactorWord ((signed sign primary).runOn c) := by
  refine outcome_advance hc hk (by cases sign <;> rfl) (Continues.goesTo (.bind hprimary ?_))
  rintro e _ ⟨f, rfl⟩
  refine .get fun c' => .bind (.grow _ _) ?_
  rintro _ _ rfl
  exact .pure _ ⟨.signed sign f, by simp [Factor.yield]⟩

theorem outcome_parenthesized (hexpr : ReadsWord expr SumWord) (hc : c.Lexed)
    (hk : c.current.kind = .openParen) :
    Outcome c [] FactorWord ((parenthesized expr).runOn c) := by
  refine outcome_advance hc hk rfl (Continues.goesTo (.bind hexpr ?_))
  rintro e _ ⟨s, rfl⟩
  refine .bind (.expect rfl) ?_
  rintro _ _ rfl
  exact .pure _ ⟨.parens s, by simp [Factor.yield]⟩

theorem readsWord_atom (hprimary : ReadsWord primary FactorWord) :
    ReadsWord (atom primary) FactorWord := by
  have hsum := readsWord_sum hprimary
  refine ⟨fun c hc => ?_, completes_factor⟩
  rw [runOn_atom]
  cases hk : c.current.kind
  case integer => exact outcome_number fun e c' => reads_integer hc hk
  case float => exact outcome_number fun e c' => reads_float hc hk
  case string =>
    obtain ⟨l, hread, -⟩ := reads_string hc hk rfl
    exact ⟨_, hread, .literal l, rfl⟩
  case null =>
    obtain ⟨l, hread, -⟩ := reads_null hc hk rfl
    exact ⟨_, hread, .literal l, rfl⟩
  case identifier =>
    dsimp only
    split
    · refine Continues.goesTo (.last (readsWord_call hsum) ?_) c hc
      rintro e _ ⟨call, rfl⟩
      exact ⟨.call call, rfl⟩
    · exact readsWord_name.goesTo c hc
  case plus => exact outcome_signed hprimary hc hk
  case minus => exact outcome_signed hprimary hc hk
  case openParen => exact outcome_parenthesized hsum hc hk
  all_goals exact fun _ => ⟨⟨_, rfl⟩, [], .refl c, completes_factor⟩

end

theorem readsWord_primary (levels : Nat) : ReadsWord (primary levels) FactorWord := by
  induction levels with
  | zero => exact .current fun t => .throw nofun completes_factor
  | succ levels ih => exact (readsWord_atom ih).nested

theorem readsWord_expr : ReadsWord expr SumWord := readsWord_sum (readsWord_primary _)

theorem readsWord_expr_tree :
    ReadsWord expr fun e u => ∃ s : Grammar.Sum, u = s.yield ∧ s.tree = e := by
  refine readsWord_expr.exact (fun c e c' hc hrun => ?_) fun _ _ ⟨s, hs⟩ => ⟨_, s, hs, rfl⟩
  obtain ⟨s, hread, htree, -⟩ := readsSum_expr hc hrun
  exact ⟨_, hread, s, rfl, htree⟩

/-! ## Statements -/

/-- An expression and the semicolon behind it. -/
theorem continues_semicolon {x : Parse β} (hx : ReadsWord x M) {g : β → α}
    (h : ∀ b u, M b u → N (g b) (before ++ (u ++ [mark .semicolon]))) :
    Continues (x >>= fun b => expect .semicolon >>= fun _ => pure (g b)) before N := by
  refine .bind hx fun b u hu => .bind (.expect rfl) ?_
  rintro _ _ rfl
  exact .pure _ (by rw [List.append_assoc]; exact h b u hu)

theorem readsWord_constBinding :
    ReadsWord constBinding fun b w => ∃ s : Grammar.Sum,
      w = mark .constWord :: word b.1 :: mark .equals :: (s.yield ++ [mark .semicolon]) := by
  refine .bind (.expect rfl) ?_
  rintro _ _ rfl
  refine .ident fun x => .bind (.expect rfl) ?_
  rintro _ _ rfl
  refine continues_semicolon readsWord_expr ?_
  rintro e _ ⟨s, rfl⟩
  exact ⟨s, rfl⟩

theorem readsWord_varBinding :
    ReadsWord varBinding fun b w => ∃ s : Option Grammar.Sum,
      w = mark .varWord :: word b.1 :: (initializer s ++ [mark .semicolon]) := by
  refine .bind (.expect rfl) ?_
  rintro _ _ rfl
  refine .ident fun x => .ifEat rfl ?_ ?_
  · have hsome : ReadsWord (some <$> expr) fun _ u => ∃ s : Grammar.Sum, u = s.yield :=
      .map readsWord_expr fun _ _ hu => hu
    refine continues_semicolon (g := fun e => (x, e)) hsome ?_
    rintro e _ ⟨s, rfl⟩
    exact ⟨some s, by simp [initializer]⟩
  · rw [pure_bind]
    refine .bind (.expect rfl) ?_
    rintro _ _ rfl
    exact .pure _ ⟨none, rfl⟩

/-- The reader reads statements. -/
abbrev StatementWord (_ : Stmt) (u : List Terminal) : Prop := ∃ s : Statement, u = s.yield

theorem completes_statement : Completes [] StatementWord := by
  refine ⟨[mark .varWord, word "x", mark .semicolon], ?_, .ret .null, .var "x" none, rfl⟩
  simpa using ⟨Terminal.usual_mark rfl, Terminal.usual_word "x", Terminal.usual_mark rfl⟩

theorem readsWord_assignment : ReadsWord assignment StatementWord := by
  refine .ident fun x => .bind (.expect rfl) ?_
  rintro _ _ rfl
  refine continues_semicolon readsWord_expr ?_
  rintro e _ ⟨s, rfl⟩
  exact ⟨.assign x s, rfl⟩

theorem readsWord_returnStmt : ReadsWord returnStmt StatementWord := by
  refine .bind (.expect rfl) ?_
  rintro _ _ rfl
  refine continues_semicolon readsWord_expr ?_
  rintro e _ ⟨s, rfl⟩
  exact ⟨.ret s, rfl⟩

theorem readsWord_callStmt : ReadsWord callStmt StatementWord := by
  refine continues_semicolon (readsWord_call readsWord_expr) ?_
  rintro e _ ⟨call, rfl⟩
  exact ⟨.call call, rfl⟩

theorem readsWord_stmt : ReadsWord stmt StatementWord := by
  refine .get fun c => ?_
  split
  · refine .bind readsWord_constBinding ?_
    rintro ⟨x, e⟩ _ ⟨s, rfl⟩
    exact .pure _ ⟨.const x s, rfl⟩
  · refine .bind readsWord_varBinding ?_
    rintro ⟨x, e⟩ _ ⟨s, rfl⟩
    exact .pure _ ⟨.var x s, rfl⟩
  · exact readsWord_returnStmt
  · split
    · exact readsWord_callStmt
    · exact readsWord_assignment
  · exact .unexpected _ completes_statement

theorem readsWord_body (rounds : List Token) :
    ReadsWord (body rounds) fun _ u =>
      ∃ ss : List Statement, u = ss.flatMap Statement.yield ++ [mark .closeBrace] := by
  induction rounds with
  | nil =>
    refine .unexpected _ ⟨[mark .closeBrace], ?_, [], [], rfl⟩
    simpa using Terminal.usual_mark rfl
  | cons token rounds ih =>
    refine .ifEat rfl (.pure _ ⟨[], rfl⟩) (.bind readsWord_stmt ?_)
    rintro st _ ⟨s, rfl⟩
    refine .bind ih ?_
    rintro sts _ ⟨ss, rfl⟩
    exact .pure _ ⟨s :: ss, by simp⟩

/-! ## Functions -/

/-- There is always another name for a parameter. -/
theorem Params.exists_fresh (ps : Params) : ∃ x, ps.contains x = false := by
  obtain ⟨x, hx⟩ :=
    Infinite.exists_notMem_finset (ps.required ++ ps.optional.map (·.ident)).toFinset
  refine ⟨x, ?_⟩
  simp only [List.mem_toFinset, List.mem_append, not_or, List.mem_map, not_exists, not_and] at hx
  simp only [Params.contains, Bool.or_eq_false_iff, List.any_eq_false, beq_iff_eq]
  exact ⟨by simpa using hx.1, hx.2⟩

/-- The reader reads a parameter that may stand behind those given. -/
abbrev ParamWord (ps ps' : Params) (u : List Terminal) : Prop :=
  ∃ p : Param, u = p.yield ∧ ps' = ps.add p ∧ ps.Admits p

/-- A new name and a default value may always stand behind other parameters. -/
theorem completes_param {ps : Params} {y : String} (hy : ps.contains y = false) :
    Completes [word y] (ParamWord ps) := by
  refine ⟨[mark .equals, mark .null], ?_, _,
    ⟨y, some (.mk (.mk (.literal .null) .done) .done)⟩, rfl, rfl, hy, fun _ => rfl⟩
  simpa using ⟨Terminal.usual_mark rfl, Terminal.usual_mark rfl⟩

theorem readsWord_param (f : String) (ps : Params) : ReadsWord (param f ps) (ParamWord ps) := by
  rw [param_eq]
  obtain ⟨y, hy⟩ := ps.exists_fresh
  -- If the name is missing, a new one completes the word; a name that is there may be refused.
  refine .current fun t => .goesTo_ident (fun x => ?_)
    ((completes_param hy).of_append (by simpa using Terminal.usual_word y))
  split
  · rintro _ _ ⟨⟩
  next hx =>
    rw [Bool.not_eq_true] at hx
    refine Continues.goesTo (.ifEat rfl (.bind readsWord_expr_tree ?_) ?_)
    · rintro _ _ ⟨s, rfl, rfl⟩
      refine .pure _ ⟨⟨x, some s⟩, rfl, ?_, hx, fun _ => rfl⟩
      simp [Params.add, Param.required?, Param.optional?]
    · split
      next hempty =>
        rw [List.isEmpty_iff] at hempty
        refine .pure _ ⟨⟨x, none⟩, rfl, ?_, hx, fun h => absurd hempty h⟩
        simp [Params.add, Param.required?, Param.optional?]
      · exact .throw id (completes_param hx)

theorem readsWord_params (f : String) (rounds : List Token) (ps : Params) :
    ReadsWord (params f rounds ps) fun _ u => ∃ (q : Param) (qs : List Param),
      u = Grammar.paramList (q :: qs) ++ [mark .closeParen] ∧ ps.AdmitsAll (q :: qs) := by
  have hclose : ∀ t ∈ [mark .closeParen], t.Usual := by simpa using Terminal.usual_mark rfl
  have hlast {ps : Params} {q : Param} (hq : ps.Admits q) :
      ∃ (r : Param) (rs : List Param), q.yield ++ [mark .closeParen] =
        Grammar.paramList (r :: rs) ++ [mark .closeParen] ∧ ps.AdmitsAll (r :: rs) :=
    ⟨q, [], rfl, hq, trivial⟩
  induction rounds generalizing ps with
  | nil =>
    obtain ⟨more, hmore, _, q, rfl, -, hq⟩ := (readsWord_param f ps).completes
    exact .unexpected _ ⟨_, List.forall_mem_append.mpr ⟨hmore, hclose⟩, {}, hlast hq⟩
  | cons token rounds ih =>
    refine .bind (readsWord_param f ps) ?_
    rintro _ _ ⟨q, rfl, rfl, hq⟩
    refine .ifEat rfl (.pure _ (hlast hq)) (.ifEat rfl (.last (ih _) ?_) ?_)
    · rintro ps' _ ⟨r, qs, rfl, hqs⟩
      exact ⟨q, r :: qs, by simp [Grammar.paramList], hq, hqs⟩
    · exact .unexpected _ ⟨_, hclose, {}, hlast hq⟩

theorem readsWord_paramList (f : String) :
    ReadsWord (paramList f) fun _ u => ∃ qs : List Param,
      u = Grammar.paramList qs ++ [mark .closeParen] ∧ ParamsOrdered qs := by
  refine .ifEat rfl (.pure _ ⟨[], rfl, List.nodup_nil, .nil⟩) (.rounds fun rounds => ?_)
  refine .last (readsWord_params f rounds {}) ?_
  rintro ps _ ⟨q, qs, rfl, hqs⟩
  exact ⟨q :: qs, rfl, (Params.admitsAll_empty _).mp hqs⟩

theorem readsWord_function :
    ReadsWord function fun _ u => ∃ d : FuncDecl, u = d.yield ∧ ParamsOrdered d.params := by
  refine .bind (.expect rfl) ?_
  rintro _ _ rfl
  refine .ident fun x => .bind (.expect rfl) ?_
  rintro _ _ rfl
  refine .bind (readsWord_paramList x) ?_
  rintro ps _ ⟨qs, rfl, hqs⟩
  refine .bind (.expect rfl) ?_
  rintro _ _ rfl
  refine .rounds fun rounds => .bind (readsWord_body rounds) ?_
  rintro sts _ ⟨ss, rfl⟩
  exact .pure _ ⟨⟨x, qs, ss⟩, by simp [FuncDecl.yield], hqs⟩

/-! ## Declarations -/

/-- The reader reads declarations with parameters in order. -/
abbrev DeclWord (_ : Decl) (u : List Terminal) : Prop :=
  ∃ g : Declaration, u = g.yield ∧ ∀ f, g = .func f → ParamsOrdered f.params

theorem completes_decl : Completes [] DeclWord := by
  refine ⟨[mark .varWord, word "x", mark .semicolon], ?_, .var "x" none, .var "x" none, rfl, nofun⟩
  simpa using ⟨Terminal.usual_mark rfl, Terminal.usual_word "x", Terminal.usual_mark rfl⟩

theorem readsWord_decl : ReadsWord decl DeclWord := by
  refine .current fun t => ?_
  split
  · refine .bind readsWord_constBinding ?_
    rintro ⟨x, e⟩ _ ⟨s, rfl⟩
    exact .pure _ ⟨.const x s, rfl, nofun⟩
  · refine .bind readsWord_varBinding ?_
    rintro ⟨x, e⟩ _ ⟨s, rfl⟩
    exact .pure _ ⟨.var x s, rfl, nofun⟩
  · refine .map readsWord_function ?_
    rintro d _ ⟨g, rfl, hg⟩
    refine ⟨.func g, rfl, ?_⟩
    rintro _ ⟨⟩
    exact hg
  · exact .unexpected _ completes_decl

theorem readsWord_decls (rounds : List Token) :
    ReadsWord (decls rounds) fun _ u => ∃ gs : List Declaration,
      u = gs.flatMap Declaration.yield ∧ ∀ g ∈ gs, ∀ f, g = .func f → ParamsOrdered f.params := by
  have hnil : ∃ gs : List Declaration, [] = gs.flatMap Declaration.yield ∧
      ∀ g ∈ gs, ∀ f, g = .func f → ParamsOrdered f.params := ⟨[], rfl, nofun⟩
  induction rounds with
  | nil => exact .unexpected _ (completes_self [] hnil)
  | cons token rounds ih =>
    refine .current fun t => ?_
    split
    · exact .pure _ hnil
    · refine .bind readsWord_decl ?_
      rintro d _ ⟨g, rfl, hg⟩
      refine .bind ih ?_
      rintro ds _ ⟨gs, rfl, hgs⟩
      exact .pure _ ⟨g :: gs, by simp, List.forall_mem_cons.mpr ⟨hg, hgs⟩⟩

theorem readsWord_program :
    ReadsWord program fun _ u => ∃ d : Derivation,
      u = d.yield ∧ ∀ f, .func f ∈ d.decls → ParamsOrdered f.params := by
  refine .rounds fun rounds => .bind (readsWord_decls rounds) ?_
  rintro ds _ ⟨gs, rfl, hgs⟩
  exact .pure _ ⟨⟨gs⟩, rfl, fun f hf => hgs _ hf f rfl⟩

end Parse

end Scriptlet
