-- SUMMARY: The places that reading a list of tokens comes to, and what settles them.
import Scriptlet.Proofs.Parse.TooDeep

/-!
# Places

Reading a program enters its declarations, and reading any part enters the parts in it.
So reading a list of tokens comes to places: a part, and the cursor where it is read,
which counts the primary expressions that are open there. How a place is come to is
settled by the tokens before it.
-/
namespace Scriptlet

open Scriptlet.Action
open Cursor (Alike Known Within)

namespace Parse

variable {α β : Type}

/-! ## Parts that are read inside others -/

/-- Where `p` is read at `c`, reading enters `q` at `c'`. What stands in `p` before `q` was read. -/
inductive Enters : {α β : Type} → Part α → Cursor → Part β → Cursor → Prop
  | decls {c} : Enters .program c .decls c
  | decl {c} (hmore : c.current.kind ≠ .endOfInput) : Enters .decls c .decl c
  | otherDecls {c d c₁} (hmore : c.current.kind ≠ .endOfInput)
    (hdecl : Part.decl.read.runOn c = (.ok d, c₁)) : Enters .decls c .decls c₁
  | constDecl {c} (hk : c.current.kind = .constWord) : Enters .decl c .constBinding c
  | varDecl {c} (hk : c.current.kind = .varWord) : Enters .decl c .varBinding c
  | function {c} (hk : c.current.kind = .funcWord) : Enters .decl c .function c
  | params {c f} (hword : c.current.kind = .funcWord) (hname : c.advance.current.name? = some f)
    (hparen : c.advance.advance.current.kind = .openParen)
    (hsome : c.advance.advance.advance.current.kind ≠ .closeParen) :
    Enters .function c (.params f {}) c.advance.advance.advance
  | body {c f ps c₁} (hword : c.current.kind = .funcWord)
    (hname : c.advance.current.name? = some f)
    (hparen : c.advance.advance.current.kind = .openParen)
    (hparams : (paramList f).runOn c.advance.advance.advance = (.ok ps, c₁))
    (hbrace : c₁.current.kind = .openBrace) : Enters .function c .body c₁.advance
  | param {f ps c} : Enters (.params f ps) c (.param f ps) c
  | otherParams {f ps c ps₁ c₁} (hparam : (Part.param f ps).read.runOn c = (.ok ps₁, c₁))
    (hcomma : c₁.current.kind = .comma) : Enters (.params f ps) c (.params f ps₁) c₁.advance
  | default {f ps c x} (hname : c.current.name? = some x) (hnew : ps.contains x = false)
    (hequals : c.advance.current.kind = .equals) :
    Enters (.param f ps) c (.exprOver 0) c.advance.advance
  | stmt {c} (hmore : c.current.kind ≠ .closeBrace) : Enters .body c .stmt c
  | otherStmts {c s c₁} (hmore : c.current.kind ≠ .closeBrace)
    (hstmt : Part.stmt.read.runOn c = (.ok s, c₁)) : Enters .body c .body c₁
  | constStmt {c} (hk : c.current.kind = .constWord) : Enters .stmt c .constBinding c
  | varStmt {c} (hk : c.current.kind = .varWord) : Enters .stmt c .varBinding c
  | returnStmt {c} (hk : c.current.kind = .returnWord) : Enters .stmt c .returnStmt c
  | callStmt {c} (hk : c.current.kind = .identifier) (hnext : c.next.kind = .openParen) :
    Enters .stmt c .callStmt c
  | assignment {c} (hk : c.current.kind = .identifier) (hnext : c.next.kind ≠ .openParen) :
    Enters .stmt c .assignment c
  | constValue {c x} (hword : c.current.kind = .constWord)
    (hname : c.advance.current.name? = some x)
    (hequals : c.advance.advance.current.kind = .equals) :
    Enters .constBinding c (.exprOver 0) c.advance.advance.advance
  | varValue {c x} (hword : c.current.kind = .varWord) (hname : c.advance.current.name? = some x)
    (hequals : c.advance.advance.current.kind = .equals) :
    Enters .varBinding c (.exprOver 0) c.advance.advance.advance
  | assigned {c x} (hname : c.current.name? = some x) (hequals : c.advance.current.kind = .equals) :
    Enters .assignment c (.exprOver 0) c.advance.advance
  | returned {c} (hword : c.current.kind = .returnWord) :
    Enters .returnStmt c (.exprOver 0) c.advance
  | called {c} : Enters .callStmt c .call c
  | inExpr {α β : Type} {p : Part α} {q : Part β} {c m c'} (hasks : Asks p c.depth c q m c') :
    Enters p c q c'

/-- Reading the tokens comes to the part at the cursor. -/
inductive ComesTo (tokens : List Token) : {α : Type} → Part α → Cursor → Prop
  | start : ComesTo tokens .program (Cursor.ofTokens tokens)
  | step {α β : Type} {p : Part α} {q : Part β} {c c'} (h : ComesTo tokens p c)
    (henters : Enters p c q c') : ComesTo tokens q c'

section
variable {p : Part α} {q : Part β} {c c' : Cursor}

/-- A part that is entered has fewer parts inside it. -/
theorem Enters.inside (h : Enters p c q c') : Inside q c' p c := by
  have hadvance := Cursor.Onward.advance
  cases h with
  | otherDecls hmore hdecl =>
    exact .later (moves_decl.onward hdecl) (progresses_decl _ _ _ hdecl)
  | params hword hname hparen hsome =>
    exact .smaller (((hadvance _).trans (hadvance _)).trans (hadvance _)) (by simp [Part.rank])
  | body hword hname hparen hparams hbrace =>
    have honward := (((hadvance c).trans (hadvance _)).trans (hadvance _)).trans
      ((moves_paramList _).onward hparams)
    exact .smaller (honward.trans (hadvance _)) (by simp [Part.rank])
  | otherParams hparam hcomma =>
    exact .later (((moves_param _ _).onward hparam).trans (hadvance _))
      (length_lt_of_comma (moves_param _ _) (refuses_param _ _ (by decide)) hparam hcomma)
  | otherStmts hmore hstmt =>
    exact .later (moves_stmt.onward hstmt) (progresses_stmt _ _ _ hstmt)
  | default => exact .smaller ((hadvance _).trans (hadvance _)) (by simp [Part.rank])
  | constValue | varValue =>
    exact .smaller (((hadvance _).trans (hadvance _)).trans (hadvance _)) (by simp [Part.rank])
  | assigned => exact .smaller ((hadvance _).trans (hadvance _)) (by simp [Part.rank])
  | returned => exact .smaller (hadvance _) (by simp [Part.rank])
  | inExpr hasks => exact hasks.inside rfl
  | _ => exact .smaller (.refl c) (by simp [Part.rank])

theorem Inside.length_rest_le (h : Inside q c' p c) : c'.rest.length ≤ c.rest.length := by
  cases h with
  | opened _ honward | later honward | smaller honward => exact honward.rest.length_le

/-! ## Nesting that is refused at a place -/

/-- Behind a left operand the cursor has its height. -/
def Part.Fits : {α : Type} → Part α → Cursor → Prop
  | _, chain _ lhs, c => c.height = lhs.height
  | _, _, _ => True

theorem Enters.fits (h : Enters p c q c') : q.Fits c' := by
  cases h with
  | inExpr hasks =>
    cases hasks with
    | behind hlhs => exact height_primary hlhs
    | joined hop hrhs hheight => rfl
    | _ => trivial
  | _ => trivial

theorem ComesTo.fits {tokens : List Token} (h : ComesTo tokens p c) : p.Fits c := by
  cases h with
  | start => trivial
  | step h henters => exact henters.fits

/-- No more primary expressions are open than may be. -/
theorem ComesTo.depth_le {tokens : List Token} (h : ComesTo tokens p c) : c.depth ≤ maxNesting := by
  induction h with
  | start => exact Nat.zero_le _
  | step h henters ih =>
    cases henters.inside with
    | opened hdepth honward => exact honward.depth ▸ hdepth
    | later honward | smaller honward => exact honward.depth ▸ ih

theorem Part.Fits.tracked {n m : Nat} (h : p.Fits c) (hasks : Asks p n c q m c')
    (hdepth : c.depth = n) : Tracked p n c := by
  refine ⟨?_, hdepth⟩
  cases hasks with
  | right | joined => exact h
  | _ => trivial

/-- A part that enters one that is refused is refused. -/
theorem Enters.tooDeep {offset : Nat} (h : Enters p c q c') (hp : p.Fits c)
    (hq : q.TooDeep c' offset) : p.TooDeep c offset := by
  rw [Part.TooDeep, Part.runOn_read, Part.step.eq_def]
  cases h with
  | decls => exact fst_runOn_bind_eq_error.mpr (.inl hq)
  | decl hmore =>
    rw [runOn_bind_ok (runOn_current c), if_neg hmore]
    exact fst_runOn_bind_eq_error.mpr (.inl hq)
  | otherDecls hmore hdecl =>
    rw [runOn_bind_ok (runOn_current c), if_neg hmore, runOn_bind_ok hdecl]
    exact fst_runOn_bind_eq_error.mpr (.inl hq)
  | constDecl hk | varDecl hk =>
    rw [runOn_bind_ok (runOn_current c), hk]
    exact fst_runOn_bind_eq_error.mpr (.inl hq)
  | function hk =>
    rw [runOn_bind_ok (runOn_current c), hk]
    exact fst_runOn_map_eq_error.mpr hq
  | params hword hname hparen hsome =>
    refine fst_runOn_expect_bind.mpr ⟨hword, fst_runOn_ident_bind.mpr ⟨_, hname,
      fst_runOn_expect_bind.mpr ⟨hparen, fst_runOn_bind_eq_error.mpr (.inl ?_)⟩⟩⟩
    rw [runOn_ifEat, if_neg hsome]
    exact hq
  | body hword hname hparen hparams hbrace =>
    refine fst_runOn_expect_bind.mpr ⟨hword, fst_runOn_ident_bind.mpr ⟨_, hname,
      fst_runOn_expect_bind.mpr ⟨hparen, fst_runOn_bind_eq_error.mpr (.inr ⟨_, _, hparams, ?_⟩)⟩⟩⟩
    exact fst_runOn_expect_bind.mpr ⟨hbrace, fst_runOn_bind_eq_error.mpr (.inl hq)⟩
  | param => exact fst_runOn_bind_eq_error.mpr (.inl hq)
  | otherParams hparam hcomma =>
    rw [runOn_bind_ok hparam, runOn_ifEat, if_neg (by rw [hcomma]; decide), runOn_ifEat,
      if_pos hcomma]
    exact hq
  | default hname hnew hequals =>
    rw [runOn_bind_ok (runOn_current c)]
    refine fst_runOn_ident_bind.mpr ⟨_, hname, ?_⟩
    rw [if_neg (by simp [hnew]), runOn_ifEat, if_pos hequals]
    exact fst_runOn_bind_eq_error.mpr (.inl hq)
  | stmt hmore =>
    rw [runOn_ifEat, if_neg hmore]
    exact fst_runOn_bind_eq_error.mpr (.inl hq)
  | otherStmts hmore hstmt =>
    rw [runOn_ifEat, if_neg hmore, runOn_bind_ok hstmt]
    exact fst_runOn_bind_eq_error.mpr (.inl hq)
  | constStmt hk | varStmt hk =>
    rw [runOn_bind_ok (runOn_get c), hk]
    exact fst_runOn_bind_eq_error.mpr (.inl hq)
  | returnStmt hk =>
    rw [runOn_bind_ok (runOn_get c), hk]
    exact hq
  | callStmt hk hnext =>
    rw [runOn_bind_ok (runOn_get c), hk, if_pos hnext]
    exact hq
  | assignment hk hnext =>
    rw [runOn_bind_ok (runOn_get c), hk, if_neg hnext]
    exact hq
  | constValue hword hname hequals =>
    exact fst_runOn_expect_bind.mpr ⟨hword, fst_runOn_ident_bind.mpr ⟨_, hname,
      fst_runOn_expect_bind.mpr ⟨hequals, fst_runOn_bind_eq_error.mpr (.inl hq)⟩⟩⟩
  | varValue hword hname hequals =>
    refine fst_runOn_expect_bind.mpr ⟨hword, fst_runOn_ident_bind.mpr ⟨_, hname, ?_⟩⟩
    rw [runOn_ifEat, if_pos hequals]
    exact fst_runOn_bind_eq_error.mpr (.inl (fst_runOn_map_eq_error.mpr hq))
  | assigned hname hequals =>
    exact fst_runOn_ident_bind.mpr ⟨_, hname, fst_runOn_expect_bind.mpr ⟨hequals,
      fst_runOn_bind_eq_error.mpr (.inl hq)⟩⟩
  | returned hword =>
    exact fst_runOn_expect_bind.mpr ⟨hword, fst_runOn_bind_eq_error.mpr (.inl hq)⟩
  | called => exact fst_runOn_bind_eq_error.mpr (.inl hq)
  | inExpr hasks =>
    have hasked := hasks.tooDeep (hp.tracked hasks rfl) hq
    rwa [Part.TooDeep, Part.runOn_read, Part.step.eq_def] at hasked

theorem ComesTo.tooDeep {tokens : List Token} {offset : Nat} (h : ComesTo tokens p c)
    (hp : p.TooDeep c offset) : Program.ofTokens tokens = .error (.nestingTooDeep offset) := by
  induction h with
  | start => exact hp
  | step h henters ih => exact ih (henters.tooDeep h.fits hp)

end

/-! ## Places before other tokens -/

end Parse

namespace Cursor

variable {after after' : List Token} {c c₁ d : Cursor}

/-- The cursor stands before two tokens, or more, that stand before `after`. -/
def Clear (after : List Token) (c : Cursor) : Prop := after.length + 1 < c.rest.length

/-- Both cursors see the same tokens, and behind these the first one sees `after` and the second one
`after'`. -/
def SameBefore (after after' : List Token) (c d : Cursor) : Prop :=
  ∃ known, Alike 0 (some (after, after')) known c d

theorem Clear.of_le (h : c₁.rest.length ≤ c.rest.length) (hclear : c₁.Clear after) :
    c.Clear after :=
  Nat.lt_of_lt_of_le hclear h

theorem Clear.of_onward (h : c.Onward c₁) (hclear : c₁.Clear after) : c.Clear after :=
  hclear.of_le h.rest.length_le

theorem Clear.of_advance (h : c.advance.Clear after) : c.Clear after :=
  h.of_onward (.advance c)

theorem Clear.within (h : c.Clear after) : c.Within (some (after, after')) := Nat.lt_of_succ_lt h

theorem Clear.within_advance (h : c.Clear after) : c.advance.Within (some (after, after')) := by
  rw [Within, advance, List.length_tail]
  exact Nat.lt_sub_of_add_lt h

namespace SameBefore

theorem current (h : SameBefore after after' c d) : d.current = c.current := by
  obtain ⟨known, halike⟩ := h
  exact halike.current.trans (Token.shift_zero _)

theorem depth (h : SameBefore after after' c d) : d.depth = c.depth := by
  obtain ⟨known, halike⟩ := h
  exact halike.depth

theorem rest_eq {seen : List Token} (h : SameBefore after after' c d)
    (hrest : c.rest = seen ++ after) : d.rest = seen ++ after' := by
  obtain ⟨known, halike⟩ := h
  cases halike.tokens with
  | before hne hseen hseen' =>
    rw [Token.map_shift_zero] at hseen'
    rw [hseen', List.append_cancel_right (hseen.symm.trans hrest)]

theorem advance (h : SameBefore after after' c d) (hc : c.Clear after) :
    SameBefore after after' c.advance d.advance := by
  obtain ⟨known, halike⟩ := h
  exact ⟨_, halike.advance hc.within_advance⟩

theorem next (h : SameBefore after after' c d) (hc : c.Clear after) : d.next = c.next :=
  (h.advance hc).current

theorem withHeight (h : SameBefore after after' c d) (height : Nat) :
    SameBefore after after' { c with height } { d with height } := by
  obtain ⟨known, halike⟩ := h
  exact ⟨_, halike.withHeight height true⟩

theorem withDepth (h : SameBefore after after' c d) (f : Nat → Nat) :
    SameBefore after after' { c with depth := f c.depth } { d with depth := f d.depth } := by
  obtain ⟨known, halike⟩ := h
  exact ⟨_, halike.withDepth f⟩

end SameBefore

end Cursor

namespace Parse

open Cursor (Clear SameBefore)

section
variable {after after' : List Token} {p : Part α} {q : Part β} {c c₁ d : Cursor}

/-- A reader that stays before the tokens that may differ returns the same. -/
theorem exists_runOn_of_sameBefore {x : Parse α} {a : α}
    (hx : ∀ m, ∃ j, InStep 0 (some (after, after')) ⟨m, false⟩ j x x)
    (h : SameBefore after after' c d) (hrun : x.runOn c = (.ok a, c₁)) (hc : c₁.Clear after) :
    ∃ d₁, x.runOn d = (.ok a, d₁) ∧ SameBefore after after' c₁ d₁ := by
  obtain ⟨known, halike⟩ := h
  obtain ⟨j, hstep⟩ := hx known.left
  have hsame := hstep.same c d (halike.mono (Nat.le_refl _) nofun) (by rw [hrun]; exact hc.within)
  rw [hrun] at hsame
  generalize x.runOn d = r at hsame ⊢
  cases hsame with
  | ok halike => exact ⟨_, rfl, _, halike⟩

theorem Asks.exists_sameBefore {n m : Nat} (h : Asks p n c q m c₁)
    (hd : SameBefore after after' c d) (hc : c₁.Clear after) :
    ∃ d₁, Asks p n d q m d₁ ∧ SameBefore after after' c₁ d₁ := by
  have hexpr (least : Nat) (m : Nat) :
      ∃ j, InStep 0 (some (after, after')) ⟨m, false⟩ j (exprOver least) (exprOver least) :=
    ⟨_, inStep_operators (inStep_primary _) _ _ m false⟩
  have hprimary (m : Nat) : ∃ j, InStep 0 (some (after, after')) ⟨m, false⟩ j (primary maxNesting)
      (primary maxNesting) := ⟨_, inStep_primary _ m false⟩
  cases h with
  | first => exact ⟨d, .first, hd⟩
  | behind hlhs =>
    obtain ⟨d₁, hlhs, hd₁⟩ := exists_runOn_of_sameBefore hprimary hd hlhs hc
    exact ⟨d₁, .behind hlhs, hd₁⟩
  | right hop => exact ⟨_, .right (hd.current ▸ hop), hd.advance hc.of_advance⟩
  | joined hop hrhs hheight =>
    have hc₁ := Clear.of_onward ((moves_exprOver _).onward hrhs) hc
    obtain ⟨d₁, hrhs, hd₁⟩ :=
      exists_runOn_of_sameBefore (hexpr _) (hd.advance hc₁.of_advance) hrhs hc
    exact ⟨_, .joined (hd.current ▸ hop) hrhs hheight, hd₁.withHeight _⟩
  | opened hopen => exact ⟨_, .opened hopen, hd.withDepth (· + 1)⟩
  | signed op hk => exact ⟨d, .signed op (hd.current ▸ hk), hd⟩
  | parenthesized hk => exact ⟨d, .parenthesized (hd.current ▸ hk), hd⟩
  | call hk hnext => exact ⟨d, .call (hd.current ▸ hk) (hd.next hc ▸ hnext), hd⟩
  | operand => exact ⟨_, .operand, hd.advance hc.of_advance⟩
  | enclosed => exact ⟨_, .enclosed, hd.advance hc.of_advance⟩
  | arguments hname hparen hsome =>
    have hd₁ := hd.advance hc.of_advance.of_advance
    have hd₂ := hd₁.advance hc.of_advance
    exact ⟨_, .arguments (hd.current ▸ hname) (hd₁.current ▸ hparen) (hd₂.current ▸ hsome), hd₂⟩
  | argument => exact ⟨d, .argument, hd⟩
  | others harg hcomma =>
    obtain ⟨d₁, harg, hd₁⟩ := exists_runOn_of_sameBefore (hexpr 0) hd harg hc.of_advance
    exact ⟨_, .others harg (hd₁.current ▸ hcomma), hd₁.advance hc.of_advance⟩

theorem Enters.exists_sameBefore (h : Enters p c q c₁) (hd : SameBefore after after' c d)
    (hc : c₁.Clear after) : ∃ d₁, Enters p d q d₁ ∧ SameBefore after after' c₁ d₁ := by
  cases h with
  | decls => exact ⟨d, .decls, hd⟩
  | decl hmore => exact ⟨d, .decl (hd.current ▸ hmore), hd⟩
  | otherDecls hmore hdecl =>
    obtain ⟨d₁, hdecl, hd₁⟩ := exists_runOn_of_sameBefore (fun _ => ⟨_, inStep_decl⟩) hd hdecl hc
    exact ⟨d₁, .otherDecls (hd.current ▸ hmore) hdecl, hd₁⟩
  | constDecl hk => exact ⟨d, .constDecl (hd.current ▸ hk), hd⟩
  | varDecl hk => exact ⟨d, .varDecl (hd.current ▸ hk), hd⟩
  | function hk => exact ⟨d, .function (hd.current ▸ hk), hd⟩
  | params hword hname hparen hsome =>
    have hd₁ := hd.advance hc.of_advance.of_advance.of_advance
    have hd₂ := hd₁.advance hc.of_advance.of_advance
    have hd₃ := hd₂.advance hc.of_advance
    exact ⟨_, .params (hd.current ▸ hword) (hd₁.current ▸ hname) (hd₂.current ▸ hparen)
      (hd₃.current ▸ hsome), hd₃⟩
  | body hword hname hparen hparams hbrace =>
    have hc₃ := hc.of_advance.of_onward ((moves_paramList _).onward hparams)
    have hd₁ := hd.advance hc₃.of_advance.of_advance.of_advance
    have hd₂ := hd₁.advance hc₃.of_advance.of_advance
    have hd₃ := hd₂.advance hc₃.of_advance
    obtain ⟨d₄, hparams, hd₄⟩ := exists_runOn_of_sameBefore
      (fun _ => ⟨_, inStep_paramList _⟩) hd₃ hparams hc.of_advance
    exact ⟨_, .body (hd.current ▸ hword) (hd₁.current ▸ hname) (hd₂.current ▸ hparen) hparams
      (hd₄.current ▸ hbrace), hd₄.advance hc.of_advance⟩
  | param => exact ⟨d, .param, hd⟩
  | otherParams hparam hcomma =>
    obtain ⟨d₁, hparam, hd₁⟩ := exists_runOn_of_sameBefore
      (fun _ => ⟨_, inStep_param _ _⟩) hd hparam hc.of_advance
    exact ⟨_, .otherParams hparam (hd₁.current ▸ hcomma), hd₁.advance hc.of_advance⟩
  | default hname hnew hequals =>
    have hd₁ := hd.advance hc.of_advance.of_advance
    exact ⟨_, .default (hd.current ▸ hname) hnew (hd₁.current ▸ hequals),
      hd₁.advance hc.of_advance⟩
  | stmt hmore => exact ⟨d, .stmt (hd.current ▸ hmore), hd⟩
  | otherStmts hmore hstmt =>
    obtain ⟨d₁, hstmt, hd₁⟩ := exists_runOn_of_sameBefore (fun _ => ⟨_, inStep_stmt⟩) hd hstmt hc
    exact ⟨d₁, .otherStmts (hd.current ▸ hmore) hstmt, hd₁⟩
  | constStmt hk => exact ⟨d, .constStmt (hd.current ▸ hk), hd⟩
  | varStmt hk => exact ⟨d, .varStmt (hd.current ▸ hk), hd⟩
  | returnStmt hk => exact ⟨d, .returnStmt (hd.current ▸ hk), hd⟩
  | callStmt hk hnext => exact ⟨d, .callStmt (hd.current ▸ hk) (hd.next hc ▸ hnext), hd⟩
  | assignment hk hnext => exact ⟨d, .assignment (hd.current ▸ hk) (hd.next hc ▸ hnext), hd⟩
  | constValue hword hname hequals =>
    have hd₁ := hd.advance hc.of_advance.of_advance.of_advance
    have hd₂ := hd₁.advance hc.of_advance.of_advance
    exact ⟨_, .constValue (hd.current ▸ hword) (hd₁.current ▸ hname) (hd₂.current ▸ hequals),
      hd₂.advance hc.of_advance⟩
  | varValue hword hname hequals =>
    have hd₁ := hd.advance hc.of_advance.of_advance.of_advance
    have hd₂ := hd₁.advance hc.of_advance.of_advance
    exact ⟨_, .varValue (hd.current ▸ hword) (hd₁.current ▸ hname) (hd₂.current ▸ hequals),
      hd₂.advance hc.of_advance⟩
  | assigned hname hequals =>
    have hd₁ := hd.advance hc.of_advance.of_advance
    exact ⟨_, .assigned (hd.current ▸ hname) (hd₁.current ▸ hequals), hd₁.advance hc.of_advance⟩
  | returned hword => exact ⟨_, .returned (hd.current ▸ hword), hd.advance hc.of_advance⟩
  | called => exact ⟨d, .called, hd⟩
  | inExpr hasks =>
    obtain ⟨d₁, hasks, hd₁⟩ := hasks.exists_sameBefore hd hc
    exact ⟨d₁, .inExpr (hd.depth ▸ hasks), hd₁⟩

/-- A place before two tokens or more is come to whatever stands behind them. -/
theorem ComesTo.exists_sameBefore {seen : List Token} (h : ComesTo (seen ++ after) p c)
    (hc : c.Clear after) : ∃ d, ComesTo (seen ++ after') p d ∧ SameBefore after after' c d := by
  induction h with
  | start =>
    have hseen : seen ≠ [] := by
      rintro rfl
      exact absurd hc (Nat.not_lt_of_le (Nat.le_succ _))
    exact ⟨_, .start, _, Cursor.alike_ofTokens hseen after after'⟩
  | step h henters ih =>
    obtain ⟨d, hd, hsame⟩ := ih (hc.of_le henters.inside.length_rest_le)
    obtain ⟨d₁, henters, hsame₁⟩ := henters.exists_sameBefore hsame hc
    exact ⟨d₁, .step hd henters, hsame₁⟩

end

end Parse

end Scriptlet
