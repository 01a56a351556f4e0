-- SUMMARY: A program whose tokens end too early is refused for its end, with two exceptions.
import Scriptlet.Proofs.Parse.Cut
import Scriptlet.Proofs.Token.Spelling

/-!
# Programs that end too early

At each place that reading all of the tokens comes to, reading those before the cut
follows, if it does at the places that are entered from there. A reader of expressions
may come to the cut without a fault; what reads on behind it is stuck there, or only
records a height.
-/
namespace Scriptlet

open Scriptlet.Action

namespace Parse

open Cut (AtEnd InSync Before Ended Reached)

variable {α β : Type} {k : Cut} {c' : Cursor}

/-- The parameters have the same names. -/
def Params.SameNames (ps ps' : Params) : Prop :=
  ps.required = ps'.required ∧ ps.optional.map (·.ident) = ps'.optional.map (·.ident)

/-- Where the part is read of all tokens at the second cursor, reading the tokens before the cut
follows it. Trees and parameters that were read before may be cut short. -/
def FollowsAt (k : Cut) : {α : Type} → Part α → Cursor → Prop
  | _, .program, c' =>
    Follows k k.InSync c' Part.program.read Part.program.read fun _ _ _ _ => True
  | _, .decls, c' => Follows k k.InSync c' Part.decls.read Part.decls.read fun _ _ _ _ => True
  | _, .params f ps', c' => ∀ ps : Params, ps.SameNames ps' →
    Follows k k.InSync c' (Part.params f ps).read (Part.params f ps').read fun _ _ => k.InSync
  | _, .param f ps', c' => ∀ ps : Params, ps.SameNames ps' →
    Follows k k.InSync c' (Part.param f ps).read (Part.param f ps').read fun qs qs' c c' =>
      qs.SameNames qs' ∧ k.InSync c c' ∨ k.AtEnd c
  | _, .chain least lhs', c' => ∀ lhs,
    Follows k k.Reached c' (Part.chain least lhs).read (Part.chain least lhs').read fun _ _ =>
      k.Reached
  | _, .arguments highest', c' => ∀ highest ≤ highest',
    Follows k k.InSync c' (Part.arguments highest).read (Part.arguments highest').read
      fun r r' c c' => r.2 ≤ r'.2 ∧ k.InSync c c'
  | _, .signed op, c' =>
    Follows k k.Before c' (Part.signed op).read (Part.signed op).read fun _ _ => k.Reached
  | _, .parenthesized, c' =>
    Follows k k.Before c' Part.parenthesized.read Part.parenthesized.read fun _ _ => k.Reached
  | _, p, c' => Follows k k.InSync c' p.read p.read fun _ _ => k.Reached

/-- The same for the parts that are entered from there. -/
def FollowsInside (k : Cut) (p : Part α) (c' : Cursor) : Prop :=
  ∀ ⦃β : Type⦄ ⦃q : Part β⦄ ⦃c₁' : Cursor⦄, Enters p c' q c₁' → FollowsAt k q c₁'

theorem Follows.of_step {p : Part α} {p' : Part β} {P : Cursor → Cursor → Prop}
    {Q : α → β → Cursor → Cursor → Prop}
    (h : Follows k P c' (p.step fun _ q => q.read) (p'.step fun _ q => q.read) Q) :
    Follows k P c' p.read p'.read Q := by
  intro c hc b c₁' hrun
  rw [Part.runOn_read] at hrun ⊢
  exact h c hc b c₁' hrun

theorem FailsWith.of_step {p : Part α} {F : Cursor → ParseError → Prop}
    (h : FailsWith k F (p.step fun _ q => q.read)) : FailsWith k F p.read := by
  intro c hc
  rw [Part.runOn_read]
  exact h c hc

/-! ## Expressions -/

theorem follows_leaf (e : Expr) :
    Follows k k.Before c' (leaf e) (leaf e) fun _ _ => k.Reached := by
  refine .advance ?_
  intro c hc _ _ hrun
  cases hrun
  exact .inl (hc.withHeight (Nat.le_refl 1))

theorem follows_number (read? : List Char → Option α) (make : α → Expr) :
    Follows k k.Before c' (number read? make) (number read? make) fun _ _ => k.Reached := by
  refine .current ?_
  dsimp only
  split
  · exact follows_leaf _
  · exact .of_throw _

theorem follows_name : Follows k k.InSync c' name name fun _ _ => k.Reached := by
  refine .ident fun x _ => ?_
  intro c hc _ _ hrun
  cases hrun
  exact .inl (hc.withHeight (Nat.le_refl 1))

theorem followsAt_exprOver {least : Nat} (h : FollowsInside k (.exprOver least) c') :
    FollowsAt k (.exprOver least) c' :=
  .of_step (.bind (h (.inExpr .first)) fun lhs _ _ hlhs => h (.inExpr (.behind hlhs)) lhs)

/-- Reading on behind a left operand gets no lower. -/
theorem chain_height_le {operand : Nat → Parse Expr} {least : Nat} {rounds : List Token}
    {lhs e : Expr} {c : Cursor} (hrun : (chain operand least rounds lhs).runOn c = (.ok e, c')) :
    c.height ≤ c'.height := by
  induction rounds generalizing c lhs with
  | nil => cases hrun; exact Nat.le_refl _
  | cons token rounds ih =>
    cases hop : Grammar.operatorOver? least c.current.kind with
    | none =>
      rw [runOn_chain_of_none hop] at hrun
      cases hrun
      exact Nat.le_refl _
    | some op =>
      obtain ⟨rhs, c₁, -, -, hmore⟩ := (runOn_chain_eq_ok hop).mp hrun
      have hle : max c.height c₁.height + 1 ≤ c'.height := ih hmore
      omega

/-- At the cut no operator is seen. The second reader goes on, and gets no lower. -/
theorem follows_chainAtEnd (least : Nat) (lhs lhs' : Expr) :
    Follows k k.Ended c' (Part.chain least lhs).read (Part.chain least lhs').read fun _ _ =>
      k.Reached := by
  intro c hc b c₁' hrun
  rw [Part.read, runOn_bind_ok (runOn_rounds c')] at hrun
  have hdepth := ((moves_chain moves_exprOver least _ lhs').onward hrun).depth
  rw [Part.read, runOn_bind_ok (runOn_rounds c),
    runOn_chain_of_none (by rw [hc.atEnd.kind_current]; rfl)]
  exact .inr ⟨hc.atEnd, hdepth.trans hc.depth, Nat.le_trans hc.height (chain_height_le hrun)⟩

theorem followsAt_chain {least : Nat} {lhs' : Expr} (hheight : c'.height = lhs'.height)
    (h : FollowsInside k (.chain least lhs') c') : FollowsAt k (.chain least lhs') c' := by
  intro lhs
  refine .before_or_ended (.of_step (.operator? least fun op hop => ?_))
    (follows_chainAtEnd least lhs lhs')
  cases op with
  | none => exact .pure fun _ hc => .inl hc.1
  | some op =>
    refine .current (.getHeight (fun _ hc => hc.1.height) fun c hle => .advance ?_)
    refine .bind (h (.inExpr (.right hop))) fun rhs rhs' c₁' hrhs => ?_
    refine .getHeight (fun _ hc => hc.height) fun c₁ hle₁ => .grow (by omega) fun hlt => ?_
    have hbinary : max c'.height c₁'.height + 1 = (Expr.binary op lhs' rhs').height := by
      rw [hheight, height_exprOver hrhs, Expr.height]
    rw [hbinary]
    exact h (.inExpr (.joined hop hrhs (hbinary ▸ hlt))) (.binary op lhs rhs)

theorem followsAt_primary (h : FollowsInside k .primary c') : FollowsAt k .primary c' :=
  .of_step (.nested fun hopen => h (.inExpr (.opened hopen)))

theorem followsAt_signed {op : UnaryOp} (h : FollowsInside k (.signed op) c') :
    FollowsAt k (.signed op) c' := by
  refine .of_step (.current (.advance ?_))
  refine .bind (h (.inExpr .operand)) fun e e' _ _ => ?_
  exact .getHeight (fun _ hc => hc.height) fun c hle => .grow hle fun _ => .pure fun _ hc => hc

theorem followsAt_parenthesized (h : FollowsInside k .parenthesized c') :
    FollowsAt k .parenthesized c' := by
  refine .of_step (.advance ?_)
  refine .bind (h (.inExpr .enclosed)) fun e e' _ _ => ?_
  exact .of_reached (stuck_expect (by decide)).bind
    (.expect (by decide) fun _ => .pure fun _ hc => .inl hc)

/-- The heights of the arguments that were read are no greater before the cut. -/
theorem followsAt_arguments {highest' : Nat} (h : FollowsInside k (.arguments highest') c') :
    FollowsAt k (.arguments highest') c' := by
  intro highest hhighest
  refine .of_step (.bind (h (.inExpr .argument)) fun e e' c₁' he => ?_)
  refine .getHeight (fun _ hc => hc.height) fun c hle => ?_
  have hmax : max highest c.height ≤ max highest' c₁'.height := by omega
  rw [height_exprOver he] at hmax ⊢
  refine .of_reached (stuck_ifEat (by decide) (stuck_ifEat (by decide) (stuck_unexpected _))) ?_
  refine .ifEat (by decide) (fun _ => .pure fun _ hc => ⟨hmax, hc⟩)
    (stuck_ifEat (by decide) (stuck_unexpected _)) fun _ => ?_
  refine .ifEat (by decide) (fun hcomma => ?_) (stuck_unexpected _) fun _ => .of_unexpected _
  exact .bind (h (.inExpr (.others he hcomma)) _ hmax) fun _ _ _ _ => .pure fun _ hc => hc

theorem stuck_atom : Stuck k Part.atom.read := by
  change Stuck k (atom (primary maxNesting))
  rw [atom_eq]
  refine stuck_current fun t ht => ?_
  rw [ht]
  exact stuck_unexpected _

/-- How an argument is refused at the end of input. -/
def Refusal (k : Cut) (c : Cursor) (e : ParseError) : Prop :=
  maxNesting ≤ c.depth ∧ e = .nestingTooDeep k.eof.start ∨
    ∃ expected, e = .unexpectedEnd expected k.eof.start

theorem refused_primary : FailsWith k (Refusal k) Part.primary.read := by
  intro c hc
  rw [Part.runOn_read, Part.step, runOn_nested]
  split
  · next hdepth => exact ⟨_, c, rfl, hc, .inl ⟨hdepth, by rw [hc.current]⟩⟩
  · obtain ⟨e, c', hrun, hend, he⟩ := stuck_atom (k := k) { c with depth := c.depth + 1 } hc
    exact ⟨e, { c' with depth := c'.depth - 1 }, by rw [hrun], hend, .inr he⟩

theorem refused_arguments (highest : Nat) :
    FailsWith k (Refusal k) (Part.arguments highest).read :=
  .of_step (FailsWith.of_step refused_primary.bind : FailsWith k _ (Part.exprOver 0).read).bind

/-- Closing a call whose arguments are no higher before the cut. -/
theorem follows_closeCall (f : Expr) (offset : Nat) (r r' : List Expr × Nat) :
    Follows k (fun c c' => r.2 ≤ r'.2 ∧ k.InSync c c') c'
      (grow r.2 offset >>= fun _ => pure (Expr.call f r.1))
      (grow r'.2 offset >>= fun _ => pure (Expr.call f r'.1)) fun _ _ => k.Reached := by
  rintro c ⟨hle, hc⟩
  have hclose : Follows k k.Reached c' (grow r.2 offset >>= fun _ => pure (Expr.call f r.1))
      (grow r'.2 offset >>= fun _ => pure (Expr.call f r'.1)) fun _ _ => k.Reached :=
    .grow hle fun _ => .pure fun _ hc => hc
  exact hclose c (.inl hc)

theorem followsAt_call (hplace : ComesTo k.whole .call c') (h : FollowsInside k .call c') :
    FollowsAt k .call c' := by
  refine .of_step (.currentIdent fun x hname => ?_)
  refine (Follows.expectLast (by decide) fun hparen => ?_).strengthen fun _ => And.left
  refine .ifEatOr (by decide) (fun _ => And.left) (fun _ => ?_) (fun hclose => ?_) fun hsome => ?_
  · refine .bind (Q := fun r r' c c' => r.2 ≤ r'.2 ∧ k.InSync c c')
      (.pure fun _ hc => ⟨Nat.le_refl 0, hc⟩) fun r r' _ _ => ?_
    exact follows_closeCall (.name x) c'.current.start r r'
  · -- The arguments that the call does not have are looked for at the end of input.
    rintro c ⟨hc, hlast⟩ hend _ _ -
    have hhead := hc.head?_after hend (hlast hend) (by rw [hclose, hparen]; decide)
    refine (refused_arguments 0).bind.outcome ?_ hend
    rintro _ (⟨hdepth, rfl⟩ | ⟨expected, rfl⟩)
    · have hdepth := Nat.le_antisymm hplace.depth_le (hdepth.trans_eq hc.depth.symm)
      have hrest := Cursor.rest_eq_cons (Cursor.rest_eq_cons (hc.rest_eq hend) hhead) rfl
      exact .nestingTooDeep ⟨c', _, _, _, x, hplace, hdepth, hrest, hname, hparen, hhead, hclose⟩
    · exact .unexpectedEnd expected
  · refine .strengthen (.bind (h (.inExpr (.arguments hname hparen hsome)) 0 (Nat.le_refl 0))
      fun r r' _ _ => ?_) fun _ => And.left
    exact follows_closeCall (.name x) c'.current.start r r'

/-- Where the cut is right behind a name, that may be the name of a function that is called. -/
theorem follows_nameOfCall : Follows k (fun c c' => k.Before c c' ∧ k.AtEnd c.advance) c' name
    Part.call.read fun _ _ => k.Reached := by
  rintro c ⟨⟨hc, hne⟩, hend⟩ e c₁' hrun
  obtain ⟨hcurrent, -⟩ := hc.step hne
  have hdepth := ((beginsWithName_call moves_expr).moves.onward hrun).depth
  obtain ⟨x, hk, ht, -, hcall⟩ := runOn_call_eq_ok.mp hrun
  have hname : name.runOn c = (.ok (.name x), { c.advance with height := 1 }) :=
    runOn_name_eq_ok.mpr ⟨x, hcurrent ▸ hk, hcurrent ▸ ht, rfl, rfl⟩
  rw [hname]
  refine .inr ⟨hend, hdepth.trans hc.depth, ?_⟩
  obtain ⟨-, -, rfl⟩ | ⟨-, es, height, c₁, -, -, -, rfl⟩ := hcall
  · exact Nat.le_refl 1
  · exact Nat.succ_le_succ (Nat.zero_le height)

theorem followsAt_atom (h : FollowsInside k .atom c') : FollowsAt k .atom c' := by
  refine .of_before stuck_atom ?_
  change Follows k k.Before c' (atom (primary maxNesting)) (atom (primary maxNesting)) _
  rw [atom_eq]
  refine .current ?_
  split
  · exact follows_number _ _
  · exact follows_number _ _
  · exact follows_leaf _
  · exact follows_leaf _
  · next hk =>
    exact .behindName (fun hnext => .before (h (.inExpr (.call hk hnext))))
      (fun _ => follows_name.before) follows_nameOfCall
  · next hk => exact h (.inExpr (.signed .plus hk))
  · next hk => exact h (.inExpr (.signed .minus hk))
  · next hk => exact h (.inExpr (.parenthesized hk))
  · exact .of_unexpected _

/-! ## Statements -/

/-- Reading an expression and the semicolon behind it. -/
theorem follows_semicolon {x : Parse α} {y : Parse β} {P : Cursor → Cursor → Prop}
    (h : Follows k P c' x y fun _ _ => k.Reached) {γ : Type} (f : α → γ) (g : β → γ) :
    Follows k P c' (x >>= fun a => expect .semicolon >>= fun _ => pure (f a))
      (y >>= fun b => expect .semicolon >>= fun _ => pure (g b)) fun _ _ => k.Reached :=
  h.bind fun _ _ _ _ => .of_reached (stuck_expect (by decide)).bind
    (.expect (by decide) fun _ => .pure fun _ hc => .inl hc)

theorem followsAt_constBinding (h : FollowsInside k .constBinding c') :
    FollowsAt k .constBinding c' :=
  .of_step (.expect (by decide) fun hword => .ident fun x hname =>
    .expect (by decide) fun hequals => follows_semicolon (h (.constValue hword hname hequals)) _ _)

theorem followsAt_varBinding (h : FollowsInside k .varBinding c') :
    FollowsAt k .varBinding c' := by
  refine .of_step (.expect (by decide) fun hword => .ident fun x hname => ?_)
  refine .ifEat (by decide) (fun hequals => ?_) (stuck_expect (by decide)).bind fun _ => ?_
  · exact follows_semicolon (.map (h (.varValue hword hname hequals)) fun _ _ _ _ hc => hc) _ _
  · exact .expect (by decide) fun _ => .pure fun _ hc => .inl hc

theorem followsAt_returnStmt (h : FollowsInside k .returnStmt c') : FollowsAt k .returnStmt c' :=
  .of_step (.expect (by decide) fun hword => follows_semicolon (h (.returned hword)) _ _)

theorem followsAt_assignment (h : FollowsInside k .assignment c') :
    FollowsAt k .assignment c' :=
  .of_step (.ident fun x hname => .expect (by decide) fun hequals =>
    follows_semicolon (h (.assigned hname hequals)) _ _)

theorem followsAt_callStmt (h : FollowsInside k .callStmt c') : FollowsAt k .callStmt c' :=
  .of_step (follows_semicolon (h .called) _ _)

/-- Where the cut is right behind a name, there is no assignment. -/
theorem follows_assignmentOfCall : Follows k (fun c c' => k.Before c c' ∧ k.AtEnd c.advance) c'
    assignment callStmt fun _ _ => k.Reached := by
  rintro c ⟨⟨hc, hne⟩, hend⟩ s c₁' hrun
  obtain ⟨hcurrent, -⟩ := hc.step hne
  obtain ⟨e, c₂', hcall, -⟩ := runOn_callStmt_eq_ok.mp hrun
  obtain ⟨x, hk, ht, -⟩ := runOn_call_eq_ok.mp hcall
  rw [hcurrent] at hk ht
  rw [assignment, runOn_bind, runOn_ident, Token.name?_eq_some.mpr ⟨hk, ht⟩]
  refine FailsWith.outcome (stuck_expect (by decide)).bind ?_ hend
  rintro _ ⟨expected, rfl⟩
  exact .unexpectedEnd expected

theorem stuck_stmt : Stuck k Part.stmt.read := by
  change Stuck k stmt
  rw [stmt_eq]
  refine stuck_current fun t ht => ?_
  rw [ht]
  exact stuck_unexpected _

theorem followsAt_stmt (h : FollowsInside k .stmt c') : FollowsAt k .stmt c' := by
  refine .of_before stuck_stmt ?_
  change Follows k k.Before c' stmt stmt _
  rw [stmt_eq]
  refine .current ?_
  split
  · next hk =>
    exact .map (.before (h (.constStmt hk))) fun _ _ _ _ hc => hc
  · next hk =>
    exact .map (.before (h (.varStmt hk))) fun _ _ _ _ hc => hc
  · next hk => exact .before (h (.returnStmt hk))
  · next hk =>
    exact .behindName (fun hnext => .before (h (.callStmt hk hnext)))
      (fun hnext => .before (h (.assignment hk hnext)))
      follows_assignmentOfCall
  · exact .of_unexpected _

/-! ## Functions -/

theorem Params.SameNames.contains {ps ps' : Params} (h : ps.SameNames ps') (x : String) :
    ps.contains x = ps'.contains x := by
  have hany (ps : Params) : ps.optional.any (·.ident == x) =
      (ps.optional.map (·.ident)).any (· == x) := by
    rw [List.any_map]
    rfl
  rw [Params.contains, Params.contains, h.1, hany, hany, h.2]

theorem Params.SameNames.isEmpty {ps ps' : Params} (h : ps.SameNames ps') :
    ps.optional.isEmpty = ps'.optional.isEmpty := by
  rw [← List.isEmpty_map (f := (·.ident)), h.2, List.isEmpty_map]

/-- Behind a parameter without a default value the cut may hide that it has one. -/
theorem followsAt_param {f : String} {ps' : Params} (hplace : ComesTo k.whole (.param f ps') c')
    (h : FollowsInside k (.param f ps') c') : FollowsAt k (.param f ps') c' := by
  intro ps hps
  change Follows k k.InSync c' (param f ps) (param f ps') _
  rw [param_eq, param_eq]
  refine .currentIdent fun x hname => ?_
  rw [hps.contains x, hps.isEmpty]
  split
  · exact .of_throw _
  next hnew =>
  rw [Bool.not_eq_true] at hnew
  refine .ifEatOr (by decide) (fun _ => And.left) (fun hequals => ?_) (fun hequals => ?_)
    fun _ => ?_
  · refine .bind (h (.default hname hnew hequals)) fun e e' _ _ => .pure fun c hc => ?_
    refine hc.imp (fun hc => ⟨⟨hps.1, ?_⟩, hc⟩) (·.atEnd)
    rw [List.map_append, List.map_append, hps.2]
    rfl
  · rintro c ⟨hc, hlast⟩ hend _ _ -
    split
    · exact .inr hend
    · next hsome =>
      rw [List.isEmpty_iff] at hsome
      have hname' := (Token.name?_eq_some.mp hname).1
      have hhead := hc.head?_after hend (hlast hend) (by rw [hequals, hname']; decide)
      exact ⟨hend, .requiredAfterOptional ⟨c', ps', _, hplace, hsome,
        Cursor.rest_eq_cons (hc.rest_eq hend) hhead, hname, hhead, hequals⟩⟩
  · split
    · refine .pure fun c hc => .inl ⟨⟨?_, hps.2⟩, hc.1⟩
      rw [hps.1]
    · exact .of_throw _

theorem stuck_param (f : String) (ps : Params) : Stuck k (Part.param f ps).read :=
  stuck_current fun _ _ => stuck_ident.bind

theorem stuck_params (f : String) (ps : Params) : Stuck k (Part.params f ps).read :=
  .of_step (stuck_param f ps).bind

theorem followsAt_params {f : String} {ps' : Params} (h : FollowsInside k (.params f ps') c') :
    FollowsAt k (.params f ps') c' := by
  intro ps hps
  have hcomma {x : Parse Params} : Stuck k (do
      if ← eat .comma then x else unexpected .commaOrCloseParen) :=
    stuck_ifEat (by decide) (stuck_unexpected _)
  refine .of_step (.bind (h .param ps hps) fun qs qs' c₁' hparam => ?_)
  refine .or ?_ (.of_stuck (stuck_ifEat (by decide) hcomma) fun _ => id)
  rintro c ⟨hqs, hc⟩
  refine Follows.ifEat (by decide) (fun _ => .pure fun _ hc => hc) hcomma (fun _ => ?_) c hc
  refine .ifEat (by decide) (fun hcomma => ?_) (stuck_unexpected _) fun _ => .of_unexpected _
  exact h (.otherParams hparam hcomma) qs hqs

theorem stuck_body : Stuck k Part.body.read :=
  .of_step (stuck_ifEat (by decide) stuck_stmt.bind)

theorem followsAt_body (h : FollowsInside k .body c') : FollowsAt k .body c' := by
  refine .of_step (.ifEat (by decide) (fun _ => .pure fun _ hc => .inl hc) stuck_stmt.bind
    fun hmore => .bind (h (.stmt hmore)) fun _ _ _ hstmt => ?_)
  refine .bind (.of_reached stuck_body (h (.otherStmts hmore hstmt))) fun _ _ _ _ => ?_
  exact .pure fun _ hc => hc

theorem followsAt_function (h : FollowsInside k .function c') : FollowsAt k .function c' := by
  refine .of_step (.expect (by decide) fun hword => .ident fun x hname =>
    .expect (by decide) fun hparen => ?_)
  refine .bind (Q := fun _ _ => k.InSync) ?_ fun ps ps' c₁' hparams =>
    .expect (by decide) fun hbrace => ?_
  · exact .ifEat (by decide) (fun _ => .pure fun _ hc => hc) (stuck_params x {}) fun hsome =>
      h (.params hword hname hparen hsome) {} ⟨rfl, rfl⟩
  · exact .bind (h (.body hword hname hparen hparams hbrace)) fun _ _ _ _ => .pure fun _ hc => hc

/-! ## Declarations -/

theorem followsAt_decl (h : FollowsInside k .decl c') : FollowsAt k .decl c' := by
  refine .of_before (stuck_current fun t ht => ?_) (.current ?_)
  · rw [ht]
    exact stuck_unexpected _
  split
  · next hk =>
    exact .bind (.before (h (.constDecl hk))) fun _ _ _ _ =>
      .pure fun _ hc => hc
  · next hk =>
    exact .bind (.before (h (.varDecl hk))) fun _ _ _ _ =>
      .pure fun _ hc => hc
  · next hk =>
    exact .map (.before (h (.function hk))) fun _ _ _ _ hc => hc
  · exact .of_unexpected _

/-- Between declarations a program may end. -/
theorem follows_declsAtEnd :
    Follows k k.Ended c' Part.decls.read Part.decls.read fun _ _ _ _ => True := by
  intro c hc _ _ _
  rw [Part.runOn_read, Part.step, runOn_bind_ok (runOn_current c), if_pos hc.atEnd.kind_current]
  trivial

theorem followsAt_decls (h : FollowsInside k .decls c') : FollowsAt k .decls c' := by
  refine .strengthen (.before_or_ended (.of_step (.current ?_)) follows_declsAtEnd) fun _ => .inl
  split
  · exact .pure fun _ _ => trivial
  · next hmore =>
    refine .bind (.before (h (.decl hmore))) fun _ _ _ hdecl => ?_
    exact .bind (.or (h (.otherDecls hmore hdecl)) follows_declsAtEnd) fun _ _ _ _ =>
      .pure fun _ _ => trivial

theorem followsAt_program (h : FollowsInside k .program c') : FollowsAt k .program c' :=
  .of_step (.bind (h .decls) fun _ _ _ _ => .pure fun _ _ => trivial)

/-! ## Programs -/

/-- At every place that reading all tokens comes to, reading those before the cut follows. -/
theorem ComesTo.followsAt {p : Part α} (hplace : ComesTo k.whole p c') : FollowsAt k p c' := by
  -- On the number of readers that may still be within one another.
  induction hsize : p.size c' using Nat.strong_induction_on generalizing α p c' with
  | _ size ih =>
    have h : FollowsInside k p c' := fun β q c₁' henters =>
      ih _ (hsize ▸ henters.inside.size_lt) (hplace.step henters) rfl
    cases p with
    | program => exact followsAt_program h
    | decls => exact followsAt_decls h
    | decl => exact followsAt_decl h
    | function => exact followsAt_function h
    | params => exact followsAt_params h
    | param => exact followsAt_param hplace h
    | body => exact followsAt_body h
    | stmt => exact followsAt_stmt h
    | constBinding => exact followsAt_constBinding h
    | varBinding => exact followsAt_varBinding h
    | assignment => exact followsAt_assignment h
    | returnStmt => exact followsAt_returnStmt h
    | callStmt => exact followsAt_callStmt h
    | exprOver => exact followsAt_exprOver h
    | chain => exact followsAt_chain hplace.fits h
    | primary => exact followsAt_primary h
    | atom => exact followsAt_atom h
    | signed => exact followsAt_signed h
    | parenthesized => exact followsAt_parenthesized h
    | call => exact followsAt_call hplace h
    | arguments => exact followsAt_arguments h

end Parse

open Parse in
/-- In a call without arguments where no more primary expressions may be open, an argument is
looked for at the cut. -/
theorem Cut.InDeepCall.tooDeep {k : Cut} (h : k.InDeepCall) :
    Program.ofTokens k.short = .error (.nestingTooDeep k.eof.start) := by
  obtain ⟨c, name, paren, close, x, hplace, hdepth, hrest, hname, hparen, -⟩ := h
  have hclear : c.Clear k.after := by
    rw [Cursor.Clear, hrest]
    exact Nat.lt_succ_self _
  obtain ⟨d, hd, hsame⟩ : ∃ d, ComesTo k.short .call d ∧ c.SameBefore k.after [k.eof] d :=
    hplace.exists_sameBefore hclear
  have hrest : d.rest = [name, paren] ++ [k.eof] := hsame.rest_eq hrest
  have hend : k.AtEnd d.advance.advance := by rw [AtEnd, Cursor.advance, Cursor.advance, hrest]; rfl
  have hdepth : maxNesting ≤ d.depth := by rw [hsame.depth, hdepth]
  refine hd.tooDeep (tooDeep_call.mpr ⟨x, ?_, ?_, ?_, .inl (tooDeep_arguments.mpr (.inl
    (tooDeep_exprOver.mpr (.inl (tooDeep_primary.mpr (.inl ⟨hdepth, ?_⟩))))))⟩)
  · rw [Cursor.current, hrest]
    exact hname
  · rw [Cursor.current, Cursor.advance, hrest]
    exact hparen
  · rw [hend.kind_current]
    decide
  · rw [hend.current]

namespace Program

/-- If the tokens of a program are cut and end there, they are a program, or what is missing is
reported at their end, with two exceptions. A call without arguments that is cut between its
parentheses, where no more primary expressions may be open, is reported as nested too deep there.
And a parameter that is cut from its default value may be reported as missing one behind a
parameter that has one. -/
theorem ofTokens_short {k : Cut} {p : Program} (h : ofTokens k.whole = .ok p) :
    (k.InDeepCall → ofTokens k.short = .error (.nestingTooDeep k.eof.start)) ∧
      ((∃ q, ofTokens k.short = .ok q) ∨ ∃ e, ofTokens k.short = .error e ∧ k.Fault e) := by
  refine ⟨Cut.InDeepCall.tooDeep, ?_⟩
  have hsync : k.InSync (Cursor.ofTokens k.short) (Cursor.ofTokens k.whole) :=
    ⟨⟨k.before, List.suffix_refl _, rfl, rfl⟩, rfl, rfl, Nat.le_refl 0⟩
  rcases hwhole : Parse.program.runOn (Cursor.ofTokens k.whole) with ⟨r, c'⟩
  obtain rfl : r = .ok p := by rw [← h, ofTokens, hwhole]
  have hfollows := Parse.ComesTo.start.followsAt (k := k)
  have hout := hfollows _ hsync p c' hwhole
  change Parse.CutOutcome k _ (Parse.program.runOn (Cursor.ofTokens k.short)) at hout
  rw [ofTokens]
  generalize Parse.program.runOn (Cursor.ofTokens k.short) = out at hout ⊢
  rcases out with ⟨e | q, c⟩
  · exact .inr ⟨e, rfl, hout.2⟩
  · exact .inl ⟨q, rfl⟩

end Program

/-! ## Cuts of all sorts -/

namespace Cut

/-- `var x = -1;`, cut behind the sign. -/
def ofOperand : Cut where
  before := [⟨.varWord, none, 0, 3⟩, ⟨.identifier, some "x", 4, 5⟩, ⟨.equals, none, 6, 7⟩,
    ⟨.minus, none, 8, 9⟩]
  after := [⟨.integer, some "1", 9, 10⟩, ⟨.semicolon, none, 10, 11⟩, Token.atEnd 11]
  eof := Token.atEnd 9
  isEnd := rfl

/-- `func f(a = 1, b = 2) {}`, cut behind the name of the second parameter. -/
def ofDefault : Cut where
  before := [⟨.funcWord, none, 0, 4⟩, ⟨.identifier, some "f", 5, 6⟩, ⟨.openParen, none, 6, 7⟩,
    ⟨.identifier, some "a", 7, 8⟩, ⟨.equals, none, 9, 10⟩, ⟨.integer, some "1", 11, 12⟩,
    ⟨.comma, none, 12, 13⟩, ⟨.identifier, some "b", 14, 15⟩]
  after := [⟨.equals, none, 16, 17⟩, ⟨.integer, some "2", 18, 19⟩, ⟨.closeParen, none, 19, 20⟩,
    ⟨.openBrace, none, 21, 22⟩, ⟨.closeBrace, none, 22, 23⟩, Token.atEnd 23]
  eof := Token.atEnd 15
  isEnd := rfl

/-- So many signs from `offset` on. -/
def signs (offset : Nat) : Nat → List Token
  | 0 => []
  | n + 1 => ⟨.minus, none, offset, offset + 1⟩ :: signs (offset + 1) n

/-- A call without arguments behind as many signs as may stand there, cut between its
parentheses. -/
def ofDeepCall : Cut where
  before := [⟨.varWord, none, 0, 3⟩, ⟨.identifier, some "x", 4, 5⟩, ⟨.equals, none, 6, 7⟩] ++
    signs 8 255 ++ [⟨.identifier, some "f", 263, 264⟩, ⟨.openParen, none, 264, 265⟩]
  after := [⟨.closeParen, none, 265, 266⟩, ⟨.semicolon, none, 266, 267⟩, Token.atEnd 267]
  eof := Token.atEnd 265
  isEnd := rfl

end Cut

namespace Program

theorem ofTokens_short_operand :
    (∃ p, ofTokens Cut.ofOperand.whole = .ok p) ∧
      (Cut.ofOperand.InDeepCall →
        ofTokens Cut.ofOperand.short = .error (.nestingTooDeep 9)) ∧
      ((∃ q, ofTokens Cut.ofOperand.short = .ok q) ∨
        ∃ e, ofTokens Cut.ofOperand.short = .error e ∧ Cut.ofOperand.Fault e) ∧
      ofTokens Cut.ofOperand.short = .error (.unexpectedEnd .expression 9) := by
  have hwhole : ∃ p, ofTokens Cut.ofOperand.whole = .ok p := by decide
  obtain ⟨p, hp⟩ := hwhole
  obtain ⟨hdeep, hshort⟩ := ofTokens_short hp
  exact ⟨⟨p, hp⟩, hdeep, hshort, by decide⟩

theorem scan_signs (offset n : Nat) {rest : List Char} {ts : List Token}
    (h : Token.scan (offset + n) rest = .ok ts) :
    Token.scan offset (List.replicate n '-' ++ rest) = .ok (Cut.signs offset n ++ ts) := by
  induction n generalizing offset with
  | zero => exact h
  | succ n ih =>
    have hsign : Token.Ends .minus none ['-'] (List.replicate n '-' ++ rest) :=
      ⟨Token.lexes_mark rfl, fun _ _ => rfl⟩
    have hrest := ih (offset + 1) (by rwa [Nat.add_right_comm])
    rw [List.replicate_succ, List.cons_append]
    refine (Token.scan_token hsign offset).trans ?_
    rw [show Text.byteLength ['-'] = 1 from rfl, hrest]
    rfl

/-- What stands behind `var x = `. -/
theorem scan_value {rest : List Char} {ts : List Token} (h : Token.scan 8 rest = .ok ts) :
    Token.scan 0 ("var x = ".toList ++ rest) = .ok (⟨.varWord, none, 0, 3⟩ ::
      ⟨.identifier, some "x", 4, 5⟩ :: ⟨.equals, none, 6, 7⟩ :: ts) := by
  have hspace (rest : List Char) : Token.Separates (' ' :: rest) := by
    rintro _ ⟨⟩
    exact .inl rfl
  have hx : (Terminal.word "x").Spellable := ⟨"x", rfl, ⟨'x', [], rfl, rfl, nofun⟩, by decide⟩
  have hequals := Token.scan_spelling (t := .mark .equals) rfl (hspace _)
    ((Token.scan_space 7 _).trans h)
  have hname := Token.scan_spelling hx (hspace _) ((Token.scan_space 5 _).trans hequals)
  exact Token.scan_spelling (t := .mark .varWord) rfl (hspace _)
    ((Token.scan_space 3 _).trans hname)

theorem scan_ofDeepCall :
    Token.ofText ("var x = " ++ String.ofList (List.replicate 255 '-') ++ "f();") =
      .ok Cut.ofDeepCall.whole := by
  have hcall : Token.scan 263 "f();".toList = .ok [⟨.identifier, some "f", 263, 264⟩,
      ⟨.openParen, none, 264, 265⟩, ⟨.closeParen, none, 265, 266⟩, ⟨.semicolon, none, 266, 267⟩,
      Token.atEnd 267] := by cbv
  have hsigns : (String.ofList (List.replicate 255 '-')).toList = List.replicate 255 '-' :=
    String.toList_ofList
  rw [Token.ofText, String.toList_append, String.toList_append, hsigns, List.append_assoc,
    scan_value (scan_signs 8 255 hcall), Cut.whole, Cut.ofDeepCall, List.append_assoc,
    List.append_assoc]
  rfl

/-- At two cuts something else is reported than the end of input. -/
theorem short_not_unexpectedEnd :
    (Token.ofText "func f(a = 1, b = 2) \x7b\x7d" = .ok Cut.ofDefault.whole ∧
      (∃ p, ofTokens Cut.ofDefault.whole = .ok p) ∧
      ofTokens Cut.ofDefault.short = .error (.requiredAfterOptional "f" "b" 14)) ∧
    Token.ofText ("var x = " ++ String.ofList (List.replicate 255 '-') ++ "f();") =
        .ok Cut.ofDeepCall.whole ∧
      (∃ p, ofTokens Cut.ofDeepCall.whole = .ok p) ∧
      ofTokens Cut.ofDeepCall.short = .error (.nestingTooDeep 265) :=
  ⟨⟨by cbv, by decide, by decide⟩, scan_ofDeepCall, by decide +kernel, by decide +kernel⟩

end Program

end Scriptlet
