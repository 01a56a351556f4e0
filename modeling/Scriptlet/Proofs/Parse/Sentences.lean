-- SUMMARY: On a sentence of the grammar no reader meets a token that it does not expect.
import Scriptlet.Proofs.Parse.Moves
import Scriptlet.Proofs.Parse.Reads

/-!
# Nothing else is expected before a sentence

Reading a sentence of the grammar may fail: at a limit, at a number, at the order
of parameters. But nowhere in it is anything else expected than what stands there.
This depends on the terminals alone, those that are read and the first behind them.
-/
namespace Scriptlet

open Grammar
open Scriptlet.Action
open Terminal (mark word)

namespace Parse

/-! ## Readers on terminals -/

variable {α β : Type} {x y : Parse α} {f : α → Parse β} {t : Terminal}
  {ts us vs more : List Terminal} {kind : Token.Kind}

/-- A run that stopped before these terminals, or failed where nothing else was expected. -/
def Arrives (us : List Terminal) : Except ParseError α × Cursor → Prop
  | (.ok _, c) => c.Faces us
  | (.error e, _) => ¬ e.IsUnexpected

/-- The reader goes from one list of terminals to the other, or fails where nothing else was
expected. -/
def Leads (x : Parse α) (ts us : List Terminal) : Prop :=
  ∀ c : Cursor, c.Faces ts → Arrives us (x.runOn c)

namespace Leads

theorem pure (a : α) : Leads (pure a) ts ts := fun _ hc => hc

theorem throw {e : ParseError} (he : ¬ e.IsUnexpected) : Leads (throw e : Parse α) ts us :=
  fun _ _ => he

theorem bind (hx : Leads x ts us) (hf : ∀ a, Leads (f a) us vs) : Leads (x >>= f) ts vs := by
  intro c hc
  have harrives := hx c hc
  rcases hrun : x.runOn c with ⟨e | a, c₁⟩ <;> rw [hrun] at harrives
  · rw [runOn_bind_error hrun]
    exact harrives
  · rw [runOn_bind_ok hrun]
    exact hf a c₁ harrives

theorem map (hx : Leads x ts us) (g : α → β) : Leads (g <$> x) ts us := by
  rw [map_eq_pure_bind]
  exact hx.bind fun a => pure (g a)

theorem get {f : Cursor → Parse α} (h : ∀ c, Leads (f c) ts us) : Leads (get >>= f) ts us :=
  fun c hc => h c c hc

theorem current {f : Token → Parse α}
    (h : ∀ token, token.kind = firstKind ts → Leads (f token) ts us) :
    Leads (current >>= f) ts us :=
  fun c hc => h c.current hc.kind_current c hc

/-- A loop has rounds for all terminals. -/
theorem rounds {f : List Token → Parse α} (h : ∀ rounds, ts.length < rounds.length →
    Leads (f rounds) ts us) : Leads (rounds >>= f) ts us := by
  refine fun c hc => h (c.final :: c.rest) ?_ c hc
  rw [List.length_cons, hc.length]
  exact Nat.lt_succ_self _

theorem advance : Leads advance (t :: ts) ts := fun _ hc => hc.advance

theorem eaten (hx : Leads x ts us) :
    Leads (do if ← eat kind then x else y) (mark kind :: ts) us := by
  intro c hc
  have hk : c.current.kind = kind := hc.kind_current
  rw [runOn_ifEat, if_pos hk]
  exact hx _ hc.advance

theorem uneaten (hne : firstKind ts ≠ kind) (hy : Leads y ts us) :
    Leads (do if ← eat kind then x else y) ts us := by
  intro c hc
  rw [runOn_ifEat, if_neg (hc.kind_current ▸ hne)]
  exact hy c hc

theorem expect : Leads (expect kind) (mark kind :: ts) ts := by
  intro c hc
  have hk : c.current.kind = kind := hc.kind_current
  rw [runOn_expect, if_pos hk]
  exact hc.advance

theorem ident {x : String} : Leads ident (word x :: ts) ts := by
  intro c hc
  rw [runOn_ident, Token.name?_eq_some.mpr ⟨hc.kind_current, Cursor.text_current hc.terminals⟩]
  exact hc.advance

theorem setHeight (height : Nat) : Leads (modify fun c => { c with height }) ts ts :=
  fun _ hc => ⟨hc.terminals, hc.final⟩

theorem grow (below offset : Nat) : Leads (grow below offset) ts ts := by
  intro c hc
  rw [runOn_grow]
  split
  · exact nofun
  · exact ⟨hc.terminals, hc.final⟩

theorem nested (hx : Leads x ts us) : Leads (nested x) ts us := by
  intro c hc
  rw [runOn_nested]
  split
  · exact nofun
  · have harrives := hx { c with depth := c.depth + 1 } ⟨hc.terminals, hc.final⟩
    generalize x.runOn { c with depth := c.depth + 1 } = r at harrives ⊢
    rcases r with ⟨e | a, c'⟩
    · exact harrives
    · exact ⟨harrives.terminals, harrives.final⟩

end Leads

/-! ## Operators -/

/-- The reader reads factors. -/
def PassesFactors (x : Parse Expr) : Prop :=
  ∀ (f : Factor) {more : List Terminal}, Follows 4 more → Leads x (f.yield ++ more) more

/-- The reader reads terms. -/
def PassesTerms (x : Parse Expr) : Prop :=
  ∀ (t : Term) {more : List Terminal}, Follows 2 more → Leads x (t.yield ++ more) more

/-- The reader reads sums. -/
def PassesSums (x : Parse Expr) : Prop :=
  ∀ (s : Grammar.Sum) {more : List Terminal}, Follows 0 more → Leads x (s.yield ++ more) more

section
variable {expr primary : Parse Expr} {operand : Nat → Parse Expr} {least : Nat}

theorem leads_chain_done (h : operatorOver? least (firstKind ts) = none) (rounds : List Token)
    (lhs : Expr) : Leads (chain operand least rounds lhs) ts ts := by
  intro c hc
  rw [runOn_chain_of_none (by rw [hc.kind_current]; exact h)]
  exact hc

theorem leads_chain_operator {op : BinaryOp} (hop : operatorOver? least t.kind = some op)
    (hoperand : Leads (operand op.bindingPower.2) ts us) {token : Token} {rounds : List Token}
    {lhs : Expr} (hmore : ∀ rhs, Leads (chain operand least rounds (.binary op lhs rhs)) us vs) :
    Leads (chain operand least (token :: rounds) lhs) (t :: ts) vs := by
  intro c hc
  rw [chain, runOn_bind_ok (runOn_operator? least c), hc.kind_current, firstKind, hop]
  refine Leads.current (fun first _ => .get fun c => Leads.advance.bind fun _ => ?_) c hc
  exact hoperand.bind fun rhs => .get fun c => (Leads.grow _ _).bind fun _ => hmore rhs

/-- The loop goes on behind the tail of a term. -/
theorem leads_termTail (hfactor : PassesFactors (operand 4)) (hleast : least ≤ 3)
    (hmore : Follows 2 more)
    (hgo : ∀ rounds lhs, more.length < rounds.length →
      Leads (chain operand least rounds lhs) more us) :
    (tail : TermTail) → ∀ rounds lhs, (tail.yield ++ more).length < rounds.length →
      Leads (chain operand least rounds lhs) (tail.yield ++ more) us
  | .done, rounds, lhs, hr => hgo rounds lhs hr
  | .more m f tail, [], lhs, hr => nomatch hr
  | .more m f tail, token :: rounds, lhs, hr => by
    have hf : Leads (operand m.op.bindingPower.2) (f.yield ++ (tail.yield ++ more))
        (tail.yield ++ more) := by
      rw [bindingPower_mul]
      exact hfactor f (follows_termTail tail hmore)
    rw [TermTail.yield, List.cons_append, List.append_assoc] at hr ⊢
    refine leads_chain_operator (operatorOver?_mul hleast m) hf fun rhs => ?_
    refine leads_termTail hfactor hleast hmore hgo tail rounds _ ?_
    simp only [List.length_cons, List.length_append] at hr ⊢
    omega

theorem leads_sumTail (hterm : PassesTerms (operand 2)) (hmore : Follows 0 more) :
    (tail : SumTail) → ∀ rounds lhs, (tail.yield ++ more).length < rounds.length →
      Leads (chain operand 0 rounds lhs) (tail.yield ++ more) more
  | .done, rounds, lhs, _ => leads_chain_done hmore.noOperator rounds lhs
  | .more a t tail, [], lhs, hr => nomatch hr
  | .more a t tail, token :: rounds, lhs, hr => by
    have ht : Leads (operand a.op.bindingPower.2) (t.yield ++ (tail.yield ++ more))
        (tail.yield ++ more) := by
      rw [bindingPower_add]
      exact hterm t (follows_sumTail tail hmore)
    rw [SumTail.yield, List.cons_append, List.append_assoc] at hr ⊢
    refine leads_chain_operator (operatorOver?_add (Nat.zero_le 1) a) ht fun rhs => ?_
    refine leads_sumTail hterm hmore tail rounds _ ?_
    simp only [List.length_cons, List.length_append] at hr ⊢
    omega

/-- No operator binds strongly enough to follow the right operand of a product. -/
theorem passesFactors_operators (hprimary : PassesFactors primary) (levels : Nat) :
    PassesFactors (operators primary (levels + 1) 4) := fun f _ hmore =>
  (hprimary f hmore).bind fun lhs => .rounds fun rounds _ =>
    leads_chain_done (operatorOver?_four _) rounds lhs

theorem passesTerms_operators (hprimary : PassesFactors primary) (levels : Nat) :
    PassesTerms (operators primary (levels + 2) 2) := by
  rintro ⟨f, tail⟩ more hmore
  rw [Term.yield, List.append_assoc]
  refine (hprimary f (follows_termTail tail hmore)).bind fun lhs => .rounds fun rounds hr => ?_
  exact leads_termTail (passesFactors_operators hprimary levels) (Nat.le_succ 2) hmore
    (fun rounds lhs _ => leads_chain_done hmore.noOperator rounds lhs) tail rounds lhs hr

theorem passesSums_operators (hprimary : PassesFactors primary) :
    PassesSums (operators primary operatorLevels 0) := by
  rintro ⟨⟨f, tail⟩, sums⟩ more hmore
  have hsums := follows_sumTail sums hmore
  -- One loop reads the products of the first term and goes on with the sums.
  rw [Grammar.Sum.yield, Term.yield, List.append_assoc, List.append_assoc]
  refine (hprimary f (follows_termTail tail hsums)).bind fun lhs => .rounds fun rounds hr => ?_
  exact leads_termTail (passesFactors_operators hprimary 1) (Nat.zero_le 3) hsums
    (leads_sumTail (passesTerms_operators hprimary 0) hmore sums) tail rounds lhs hr

/-! ## Calls -/

theorem leads_arguments (hexpr : PassesSums expr) : (args : Args) → ∀ rounds highest,
    (args.yield ++ mark .closeParen :: more).length < rounds.length →
      Leads (arguments expr rounds highest) (args.yield ++ mark .closeParen :: more) more
  | _, [], _, hr => nomatch hr
  | .last s, token :: rounds, highest, _ =>
    (hexpr s (follows_closeParen _)).bind fun _ => .get fun _ => .eaten (.pure _)
  | .more s args, token :: rounds, highest, hr => by
    rw [Args.yield, List.append_assoc, List.cons_append] at hr ⊢
    refine (hexpr s (follows_comma _)).bind fun _ => .get fun _ => .uneaten nofun (.eaten ?_)
    refine (leads_arguments hexpr args rounds _ ?_).bind fun _ => .pure _
    simp only [List.length_cons, List.length_append] at hr ⊢
    omega

theorem leads_call (hexpr : PassesSums expr) (call : Call) :
    Leads (Parse.call expr) (call.yield ++ more) more := by
  cases call with
  | plain x =>
    refine .current fun _ _ => Leads.ident.bind fun _ => Leads.expect.bind fun _ => .eaten ?_
    exact (Leads.pure _).bind fun _ => (Leads.grow _ _).bind fun _ => .pure _
  | applied x args =>
    rw [Call.yield, List.cons_append, List.cons_append, List.append_assoc]
    refine .current fun _ _ => Leads.ident.bind fun _ => Leads.expect.bind fun _ =>
      .uneaten (args.firstKind_yield_ne _) (.rounds fun rounds hr => ?_)
    exact (leads_arguments hexpr args rounds 0 hr).bind fun _ => (Leads.grow _ _).bind fun _ =>
      .pure _

/-! ## Primary expressions -/

theorem leads_leaf (e : Expr) : Leads (leaf e) (t :: ts) ts :=
  Leads.advance.bind fun _ => (Leads.setHeight 1).bind fun _ => .pure e

theorem leads_number {read? : List Char → Option α} {make : α → Expr} :
    Leads (number read? make) (t :: ts) ts := by
  refine .current fun token _ => ?_
  dsimp only
  split
  · exact leads_leaf _
  · exact .throw nofun

theorem leads_name {x : String} : Leads name (word x :: ts) ts :=
  Leads.ident.bind fun _ => (Leads.setHeight 1).bind fun _ => .pure _

theorem leads_signed (hprimary : PassesFactors primary) (op : UnaryOp) (f : Factor)
    (hmore : Follows 4 more) : Leads (signed op primary) (t :: (f.yield ++ more)) more :=
  .current fun _ _ => Leads.advance.bind fun _ => (hprimary f hmore).bind fun _ => .get fun _ =>
    (Leads.grow _ _).bind fun _ => .pure _

theorem leads_parenthesized (hexpr : PassesSums expr) (s : Grammar.Sum) :
    Leads (parenthesized expr) (t :: (s.yield ++ mark .closeParen :: more)) more :=
  Leads.advance.bind fun _ => (hexpr s (follows_closeParen _)).bind fun _ =>
    Leads.expect.bind fun _ => .pure _

theorem passesFactors_atom (hprimary : PassesFactors primary) : PassesFactors (atom primary) := by
  have hsum := passesSums_operators hprimary
  intro f more hmore c hc
  have hk := hc.kind_current
  rw [f.firstKind_yield] at hk
  rw [runOn_atom, hk]
  cases f with
  | literal l =>
    cases l with
    | integer | float => exact leads_number c hc
    | string | null => exact leads_leaf _ c hc
  | name x =>
    have hnext : c.next.kind ≠ .openParen := by
      rw [hc.kind_next]
      exact hmore.noParen
    dsimp only [Factor.firstKind]
    rw [if_neg hnext]
    exact leads_name c hc
  | call call =>
    have hnext : c.next.kind = .openParen := by
      obtain ⟨x, ts, hyield⟩ := call.yield_eq
      rw [Factor.yield, hyield] at hc
      exact hc.kind_next
    dsimp only [Factor.firstKind]
    rw [if_pos hnext]
    exact leads_call hsum call c hc
  | signed sign f => cases sign <;> exact leads_signed hprimary _ f hmore c hc
  | parens s =>
    rw [Factor.yield, List.cons_append, List.append_assoc] at hc
    exact leads_parenthesized hsum s c hc

end

theorem passesFactors_primary (levels : Nat) : PassesFactors (primary levels) := by
  induction levels with
  | zero => exact fun f _ _ => .current fun _ _ => .throw nofun
  | succ levels ih => exact fun f _ hmore => (passesFactors_atom ih f hmore).nested

theorem passesSums_expr : PassesSums expr := passesSums_operators (passesFactors_primary _)

/-! ## Statements -/

/-- An expression and the semicolon behind it. -/
theorem leads_semicolon (s : Grammar.Sum) (g : Expr → α) :
    Leads (expr >>= fun e => expect .semicolon >>= fun _ => pure (g e))
      (s.yield ++ [mark .semicolon] ++ more) more := by
  rw [List.append_assoc]
  exact (passesSums_expr s (follows_semicolon _)).bind fun _ => Leads.expect.bind fun _ => .pure _

theorem leads_constBinding (x : String) (s : Grammar.Sum) :
    Leads constBinding
      (mark .constWord :: word x :: mark .equals :: (s.yield ++ [mark .semicolon] ++ more)) more :=
  Leads.expect.bind fun _ => Leads.ident.bind fun _ => Leads.expect.bind fun _ =>
    leads_semicolon s _

theorem leads_varBinding (x : String) (s : Option Grammar.Sum) :
    Leads varBinding
      (mark .varWord :: word x :: (initializer s ++ [mark .semicolon] ++ more)) more := by
  refine Leads.expect.bind fun _ => Leads.ident.bind fun _ => ?_
  cases s with
  | none =>
    exact .uneaten nofun ((Leads.pure none).bind fun _ => Leads.expect.bind fun _ => .pure _)
  | some s =>
    rw [List.append_assoc]
    exact .eaten (((passesSums_expr s (follows_semicolon _)).map some).bind fun _ =>
      Leads.expect.bind fun _ => .pure _)

theorem leads_stmt (s : Statement) : Leads stmt (s.yield ++ more) more := by
  intro c hc
  have hk := hc.kind_current
  rw [s.firstKind_yield] at hk
  rw [runOn_stmt, hk]
  cases s with
  | const x s => exact (leads_constBinding x s).map _ c hc
  | var x s => exact (leads_varBinding x s).map _ c hc
  | assign x s =>
    have hnext : c.next.kind ≠ .openParen := by
      rw [hc.kind_next]
      exact nofun
    dsimp only [Statement.firstKind]
    rw [if_neg hnext]
    exact Leads.ident.bind (fun _ => Leads.expect.bind fun _ => leads_semicolon s _) c hc
  | ret s => exact Leads.expect.bind (fun _ => leads_semicolon s _) c hc
  | call call =>
    have hnext : c.next.kind = .openParen := by
      obtain ⟨x, ts, hyield⟩ := call.yield_eq
      rw [Statement.yield, hyield] at hc
      exact hc.kind_next
    dsimp only [Statement.firstKind]
    rw [if_pos hnext]
    rw [Statement.yield, List.append_assoc] at hc
    exact (leads_call passesSums_expr call).bind (fun _ => Leads.expect.bind fun _ => .pure _) c hc

theorem leads_body (rounds : List Token) (ss : List Statement)
    (hr : (ss.flatMap Statement.yield ++ mark .closeBrace :: more).length < rounds.length) :
    Leads (body rounds) (ss.flatMap Statement.yield ++ mark .closeBrace :: more) more := by
  induction ss generalizing rounds with
  | nil =>
    cases rounds with
    | nil => cases hr
    | cons token rounds => exact .eaten (.pure _)
  | cons s ss ih =>
    cases rounds with
    | nil => cases hr
    | cons token rounds =>
      have hlength := List.length_pos_iff.mpr s.yield_ne_nil
      rw [List.flatMap_cons, List.append_assoc] at hr ⊢
      refine .uneaten ?_ ((leads_stmt s).bind fun _ => (ih rounds ?_).bind fun _ => .pure _)
      · rw [s.firstKind_yield]
        cases s <;> exact nofun
      · simp only [List.length_cons, List.length_append] at hr ⊢
        omega

/-! ## Functions -/

theorem leads_param (f : String) (ps : Params) (p : Param) (hmore : Follows 0 more)
    (hne : firstKind more ≠ .equals) : Leads (param f ps) (p.yield ++ more) more := by
  rcases p with ⟨x, default⟩
  rw [param_eq]
  refine .current fun token _ => Leads.ident.bind fun y => ?_
  split
  · exact .throw nofun
  · cases default with
    | none =>
      refine .uneaten hne ?_
      split
      · exact .pure _
      · exact .throw nofun
    | some s => exact .eaten ((passesSums_expr s hmore).bind fun _ => .pure _)

theorem leads_params (f : String) (rounds : List Token) (ps : Params) (q : Param) (qs : List Param)
    (hr : (q.yield ++ paramTail qs ++ mark .closeParen :: more).length < rounds.length) :
    Leads (params f rounds ps) (q.yield ++ paramTail qs ++ mark .closeParen :: more) more := by
  induction qs generalizing rounds ps q with
  | nil =>
    cases rounds with
    | nil => cases hr
    | cons token rounds =>
      rw [paramTail, List.append_nil]
      refine (leads_param f ps q (follows_closeParen _) ?_).bind fun _ => .eaten (.pure _)
      exact Token.Kind.noConfusion
  | cons r qs ih =>
    cases rounds with
    | nil => cases hr
    | cons token rounds =>
      rw [paramTail, paramList_cons, List.append_assoc, List.cons_append] at hr ⊢
      refine (leads_param f ps q (follows_comma _) Token.Kind.noConfusion).bind fun _ =>
        .uneaten Token.Kind.noConfusion (.eaten ?_)
      refine ih rounds _ r ?_
      simp only [List.length_cons, List.length_append] at hr ⊢
      omega

theorem leads_paramList (f : String) (qs : List Param) :
    Leads (paramList f) (Grammar.paramList qs ++ mark .closeParen :: more) more := by
  cases qs with
  | nil => exact .eaten (.pure _)
  | cons q qs =>
    rw [paramList_cons]
    refine .uneaten ?_ (.rounds fun rounds hr => leads_params f rounds {} q qs hr)
    simp [Param.yield, firstKind]

theorem leads_function (f : FuncDecl) : Leads function (f.yield ++ more) more := by
  rcases f with ⟨x, qs, ss⟩
  simp only [FuncDecl.yield, List.cons_append, List.append_assoc, List.nil_append]
  exact Leads.expect.bind fun _ => Leads.ident.bind fun _ => Leads.expect.bind fun _ =>
    (leads_paramList _ qs).bind fun _ => Leads.expect.bind fun _ => .rounds fun rounds hr =>
      (leads_body rounds ss hr).bind fun _ => .pure _

/-! ## Declarations -/

theorem leads_decl (d : Declaration) : Leads decl (d.yield ++ more) more := by
  intro c hc
  have hk := hc.kind_current
  rw [d.firstKind_yield] at hk
  rw [runOn_decl, hk]
  cases d with
  | const x s => exact (leads_constBinding x s).map _ c hc
  | var x s => exact (leads_varBinding x s).map _ c hc
  | func f => exact (leads_function f).map _ c hc

theorem leads_decls (rounds : List Token) (ds : List Declaration)
    (hr : (ds.flatMap Declaration.yield ++ [mark .endOfInput]).length < rounds.length) :
    Leads (decls rounds) (ds.flatMap Declaration.yield ++ [mark .endOfInput])
      [mark .endOfInput] := by
  induction ds generalizing rounds with
  | nil =>
    cases rounds with
    | nil => cases hr
    | cons token rounds =>
      refine .current fun first (hk : first.kind = .endOfInput) => ?_
      rw [if_pos hk]
      exact .pure _
  | cons d ds ih =>
    cases rounds with
    | nil => cases hr
    | cons token rounds =>
      have hlength := List.length_pos_iff.mpr d.yield_ne_nil
      rw [List.flatMap_cons, List.append_assoc] at hr ⊢
      have hne : firstKind (d.yield ++ (ds.flatMap Declaration.yield ++ [mark .endOfInput])) ≠
          .endOfInput := by
        rw [d.firstKind_yield]
        cases d <;> exact nofun
      refine .current fun first hk => ?_
      rw [if_neg (hk ▸ hne)]
      refine (leads_decl d).bind fun _ => (ih rounds ?_).bind fun _ => .pure _
      simp only [List.length_cons, List.length_append] at hr ⊢
      omega

theorem leads_program (d : Derivation) :
    Leads program (d.yield ++ [mark .endOfInput]) [mark .endOfInput] :=
  .rounds fun rounds hr => (leads_decls rounds d.decls hr).bind fun _ => .pure _

end Parse

end Scriptlet
