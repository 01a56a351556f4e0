-- SUMMARY: The heights of expressions are accounted for: nesting is refused exactly where it passes the limit.
import Scriptlet.Proofs.Parse.Descent
import Scriptlet.Proofs.Parse.Height

/-!
# Nesting that is refused

Reading a part of an expression leads to other parts that are read inside it, each at its
own cursor and with its own number of open primary expressions. Among these is the one
that refuses to go on: it was about to build a tree above the limit, or to open a primary
expression more than may be open.
-/
namespace Scriptlet

open Scriptlet.Action
open Grammar (operatorOver? signKind)

namespace Parse

variable {α β γ : Type}

/-! ## The parts of an expression -/

/-- Where `p` is read at `c` with `n` primary expressions open, `q` is read at `c'` with `m` open. What
stands in `p` before `q` was read and is not too high. -/
inductive Asks : {α β : Type} → Part α → Nat → Cursor → Part β → Nat → Cursor → Prop
  | first {least n c} : Asks (.exprOver least) n c .primary n c
  | behind {least n c lhs c₁} (hlhs : Part.primary.read.runOn c = (.ok lhs, c₁)) :
    Asks (.exprOver least) n c (.chain least lhs) n c₁
  | right {least lhs n c op} (hop : operatorOver? least c.current.kind = some op) :
    Asks (.chain least lhs) n c (.exprOver op.bindingPower.2) n c.advance
  | joined {least lhs n c op rhs c₁} (hop : operatorOver? least c.current.kind = some op)
    (hrhs : (Part.exprOver op.bindingPower.2).read.runOn c.advance = (.ok rhs, c₁))
    (hheight : (Expr.binary op lhs rhs).height ≤ maxNesting) :
    Asks (.chain least lhs) n c (.chain least (.binary op lhs rhs)) n
      { c₁ with height := (Expr.binary op lhs rhs).height }
  | opened {n c} (hopen : n < maxNesting) :
    Asks .primary n c .atom (n + 1) { c with depth := c.depth + 1 }
  | signed {n c} (op : UnaryOp) (hk : c.current.kind = signKind op) : Asks .atom n c (.signed op) n c
  | parenthesized {n c} (hk : c.current.kind = .openParen) : Asks .atom n c .parenthesized n c
  | call {n c} (hk : c.current.kind = .identifier) (hnext : c.next.kind = .openParen) :
    Asks .atom n c .call n c
  | operand {op n c} : Asks (.signed op) n c .primary n c.advance
  | enclosed {n c} : Asks .parenthesized n c (.exprOver 0) n c.advance
  | arguments {n c x} (hname : c.current.name? = some x)
    (hparen : c.advance.current.kind = .openParen)
    (hsome : c.advance.advance.current.kind ≠ .closeParen) :
    Asks .call n c (.arguments 0) n c.advance.advance
  | argument {highest n c} : Asks (.arguments highest) n c (.exprOver 0) n c
  | others {highest n c e c₁} (harg : (Part.exprOver 0).read.runOn c = (.ok e, c₁))
    (hcomma : c₁.current.kind = .comma) :
    Asks (.arguments highest) n c (.arguments (max highest e.height)) n c₁.advance

/-- Reading `p` at `c` with `n` primary expressions open leads to reading `q` at `c'` with `m` open. -/
inductive LeadsTo (p : Part α) (n : Nat) (c : Cursor) : {β : Type} → Part β → Nat → Cursor → Prop
  | refl : LeadsTo p n c p n c
  | step {β γ : Type} {q : Part β} {r : Part γ} {m k c₁ c₂} (h : LeadsTo p n c q m c₁)
    (hasks : Asks q m c₁ r k c₂) : LeadsTo p n c r k c₂

/-- Where the part is read, the tree is put together from those that were read. -/
inductive Builds : {α : Type} → Part α → Cursor → Expr → Prop
  | unary {op c e c₁} (he : Part.primary.read.runOn c.advance = (.ok e, c₁)) :
    Builds (.signed op) c (.unary op e)
  | binary {least lhs c op rhs c₁} (hop : operatorOver? least c.current.kind = some op)
    (hrhs : (Part.exprOver op.bindingPower.2).read.runOn c.advance = (.ok rhs, c₁)) :
    Builds (.chain least lhs) c (.binary op lhs rhs)
  | call {c x args highest c₁} (hname : c.current.name? = some x)
    (hparen : c.advance.current.kind = .openParen)
    (hsome : c.advance.advance.current.kind ≠ .closeParen)
    (hargs : (Part.arguments 0).read.runOn c.advance.advance = (.ok (args, highest), c₁)) :
    Builds .call c (.call (.name x) args)

/-- Where the part is read with `n` primary expressions open, a tree above the limit would be built, or
more primary expressions be open than the limit. -/
inductive Overgrows : {α : Type} → Part α → Nat → Cursor → Prop
  | tree {α : Type} {p : Part α} {n c e} (h : Builds p c e) (hheight : maxNesting < e.height) :
    Overgrows p n c
  | nesting {n c} (hopen : maxNesting < n + 1) : Overgrows .primary n c

/-! ## What is known where a part is read -/

/-- The part belongs to an expression. Behind a left operand the cursor has its height. -/
def Part.InExpr : {α : Type} → Part α → Cursor → Prop
  | _, exprOver _, _ | _, primary, _ | _, atom, _ | _, signed _, _ | _, parenthesized, _
  | _, call, _ | _, arguments _, _ => True
  | _, chain _ lhs, c => c.height = lhs.height
  | _, _, _ => False

/-- The cursor counts the primary expressions that are open. -/
structure Tracked (p : Part α) (n : Nat) (c : Cursor) : Prop where
  inExpr : p.InExpr c
  depth : c.depth = n

section
variable {p : Part α} {q : Part β} {n m offset : Nat} {c c' : Cursor}

theorem height_primary {e : Expr} (h : Part.primary.read.runOn c = (.ok e, c')) :
    c'.height = e.height := (measured_primary _ h).1

theorem height_exprOver {least : Nat} {e : Expr}
    (h : (Part.exprOver least).read.runOn c = (.ok e, c')) : c'.height = e.height :=
  (measured_exprOver _ h).1

theorem height_arguments {es : List Expr} {highest height : Nat}
    (h : (Part.arguments highest).read.runOn c = (.ok (es, height), c')) :
    height = max highest (Expr.maxHeight es) := by
  rw [Part.read, runOn_bind_ok (runOn_rounds c)] at h
  exact arguments_height (measured_exprOver 0) h

theorem Asks.tracked (h : Asks p n c q m c') (hp : Tracked p n c) : Tracked q m c' := by
  obtain ⟨-, hdepth⟩ := hp
  cases h with
  | first => exact ⟨trivial, hdepth⟩
  | behind hlhs =>
    exact ⟨height_primary hlhs, ((moves_primary _).onward hlhs).depth.trans hdepth⟩
  | right hop => exact ⟨trivial, hdepth⟩
  | joined hop hrhs hheight =>
    exact ⟨rfl, ((moves_exprOver _).onward hrhs).depth.trans hdepth⟩
  | opened hopen => exact ⟨trivial, congrArg (· + 1) hdepth⟩
  | signed op hk => exact ⟨trivial, hdepth⟩
  | parenthesized hk => exact ⟨trivial, hdepth⟩
  | call hk hnext => exact ⟨trivial, hdepth⟩
  | operand => exact ⟨trivial, hdepth⟩
  | enclosed => exact ⟨trivial, hdepth⟩
  | arguments hname hparen hsome => exact ⟨trivial, hdepth⟩
  | argument => exact ⟨trivial, hdepth⟩
  | others harg hcomma =>
    exact ⟨trivial, ((moves_exprOver _).onward harg).depth.trans hdepth⟩

/-- What is read inside a part is read with fewer parts yet to come. -/
theorem Asks.inside (h : Asks p n c q m c') (hdepth : c.depth = n) : Inside q c' p c := by
  have hadvance := Cursor.Onward.advance c
  cases h with
  | first => exact .smaller (.refl c) (by simp [Part.rank])
  | behind hlhs => exact .smaller ((moves_primary _).onward hlhs) (by simp [Part.rank])
  | right hop =>
    obtain ⟨hless, htwo⟩ := lt_bindingPower_of_operatorOver? hop
    refine .smaller hadvance ?_
    simp only [Part.rank]
    omega
  | joined hop hrhs hheight =>
    have honward := (moves_exprOver _).onward hrhs
    have hlt := length_lt_of_operator (moves_exprOver _) (refuses_operators
      (refuses_primary (Token.Kind.isLeaf_of_operatorOver? hop) _) _ _) hrhs
    exact .later (hadvance.trans ⟨honward.rest, honward.final, honward.depth⟩) hlt
  | opened hopen => exact .opened (hdepth ▸ hopen) (.refl _)
  | signed op hk => exact .smaller (.refl c) (by simp [Part.rank])
  | parenthesized hk => exact .smaller (.refl c) (by simp [Part.rank])
  | call hk hnext => exact .smaller (.refl c) (by simp [Part.rank])
  | operand => exact .smaller hadvance (by simp [Part.rank])
  | enclosed => exact .smaller hadvance (by simp [Part.rank])
  | arguments hname hparen hsome => exact .smaller (hadvance.trans (.advance _)) (by simp [Part.rank])
  | argument => exact .smaller (.refl c) (by simp [Part.rank])
  | others harg hcomma =>
    have honward := (moves_exprOver _).onward harg
    exact .later (honward.trans (.advance _))
      (length_lt_of_comma moves_expr (refuses_expr (by decide)) harg hcomma)

end

/-! ## When a part is refused -/

/-- The part is refused at the offset as nested too deep. -/
def Part.TooDeep (p : Part α) (c : Cursor) (offset : Nat) : Prop :=
  (p.read.runOn c).1 = .error (.nestingTooDeep offset)

section
variable {n offset : Nat} {c : Cursor}

theorem fst_runOn_number {read? : List Char → Option α} {make : α → Expr} :
    ((number read? make).runOn c).1 ≠ .error (.nestingTooDeep offset) := by
  rw [number, runOn_bind_ok (runOn_current c)]
  dsimp only
  split <;> simp

theorem fst_runOn_ident_bind {f : String → Parse α} :
    ((ident >>= f).runOn c).1 = .error (.nestingTooDeep offset) ↔
      ∃ x, c.current.name? = some x ∧
        ((f x).runOn c.advance).1 = .error (.nestingTooDeep offset) := by
  rw [runOn_bind, runOn_ident]
  cases c.current.name? <;> simp [Cursor.unexpected_ne_nestingTooDeep]

theorem fst_runOn_expect_bind {kind : Token.Kind} {f : Unit → Parse α} :
    ((expect kind >>= f).runOn c).1 = .error (.nestingTooDeep offset) ↔
      c.current.kind = kind ∧ ((f ()).runOn c.advance).1 = .error (.nestingTooDeep offset) := by
  rw [runOn_bind, runOn_expect]
  by_cases h : c.current.kind = kind <;> simp [h, Cursor.unexpected_ne_nestingTooDeep]

theorem fst_runOn_grow_bind {below start : Nat} {f : Unit → Parse α} :
    ((grow below start >>= f).runOn c).1 = .error (.nestingTooDeep offset) ↔
      maxNesting ≤ below ∧ start = offset ∨ below < maxNesting ∧
        ((f ()).runOn { c with height := below + 1 }).1 = .error (.nestingTooDeep offset) := by
  rw [runOn_bind, runOn_grow]
  by_cases h : maxNesting ≤ below
  · simp [h, Nat.not_lt_of_le h]
  · simp [h, Nat.lt_of_not_le h]

theorem tooDeep_exprOver {least : Nat} :
    (Part.exprOver least).TooDeep c offset ↔ Part.primary.TooDeep c offset ∨
      ∃ lhs c₁, Part.primary.read.runOn c = (.ok lhs, c₁) ∧
        (Part.chain least lhs).TooDeep c₁ offset := by
  rw [Part.TooDeep, Part.runOn_read, Part.step, fst_runOn_bind_eq_error]
  rfl

theorem tooDeep_chain {least : Nat} {lhs : Expr} :
    (Part.chain least lhs).TooDeep c offset ↔
      ∃ op, operatorOver? least c.current.kind = some op ∧
        ((Part.exprOver op.bindingPower.2).TooDeep c.advance offset ∨
          ∃ rhs c₁, (Part.exprOver op.bindingPower.2).read.runOn c.advance = (.ok rhs, c₁) ∧
            (maxNesting ≤ max c.height c₁.height ∧ c.current.start = offset ∨
              max c.height c₁.height < maxNesting ∧
                (Part.chain least (.binary op lhs rhs)).TooDeep
                  { c₁ with height := max c.height c₁.height + 1 } offset)) := by
  rw [Part.TooDeep, Part.runOn_read, Part.step, runOn_bind_ok (runOn_operator? least c)]
  cases operatorOver? least c.current.kind with
  | none => simp
  | some op =>
    simp only [runOn_bind_ok (runOn_current _), runOn_bind_ok (runOn_get _),
      runOn_bind_ok (runOn_advance _), fst_runOn_bind_eq_error (x := (Part.exprOver _).read),
      fst_runOn_grow_bind, Option.some.injEq, exists_eq_left']
    rfl

theorem tooDeep_primary :
    Part.primary.TooDeep c offset ↔ maxNesting ≤ c.depth ∧ c.current.start = offset ∨
      c.depth < maxNesting ∧ Part.atom.TooDeep { c with depth := c.depth + 1 } offset := by
  rw [Part.TooDeep, Part.runOn_read, Part.step, runOn_nested]
  by_cases h : maxNesting ≤ c.depth
  · simp [h, Nat.not_lt_of_le h]
  · simp [h, Nat.lt_of_not_le h, Part.TooDeep]

theorem tooDeep_atom :
    Part.atom.TooDeep c offset ↔
      c.current.kind = .plus ∧ (Part.signed .plus).TooDeep c offset ∨
      c.current.kind = .minus ∧ (Part.signed .minus).TooDeep c offset ∨
      c.current.kind = .openParen ∧ Part.parenthesized.TooDeep c offset ∨
      c.current.kind = .identifier ∧ c.next.kind = .openParen ∧ Part.call.TooDeep c offset := by
  rw [Part.TooDeep, Part.runOn_read, Part.step, runOn_bind_ok (runOn_get c)]
  cases hk : c.current.kind
  case plus => simp [Part.TooDeep]
  case minus => simp [Part.TooDeep]
  case openParen => simp [Part.TooDeep]
  case integer => simp [fst_runOn_number]
  case float => simp [fst_runOn_number]
  case identifier =>
    by_cases hnext : c.next.kind = .openParen
    · simp [hnext, Part.TooDeep]
    · simp [hnext, name, fst_runOn_ident_bind, Except.map]
  all_goals simp [Cursor.unexpected_ne_nestingTooDeep]

theorem tooDeep_signed {op : UnaryOp} :
    (Part.signed op).TooDeep c offset ↔ Part.primary.TooDeep c.advance offset ∨
      ∃ e c₁, Part.primary.read.runOn c.advance = (.ok e, c₁) ∧ maxNesting ≤ c₁.height ∧
        c.current.start = offset := by
  rw [Part.TooDeep, Part.runOn_read, Part.step, signed, runOn_bind_ok (runOn_current c),
    runOn_bind_ok (runOn_advance c), fst_runOn_bind_eq_error]
  simp only [runOn_bind_ok (runOn_get _), fst_runOn_grow_bind, runOn_pure, reduceCtorEq, and_false,
    or_false]
  rfl

theorem tooDeep_parenthesized :
    Part.parenthesized.TooDeep c offset ↔ (Part.exprOver 0).TooDeep c.advance offset := by
  rw [Part.TooDeep, Part.runOn_read, Part.step, parenthesized, runOn_bind_ok (runOn_advance c),
    fst_runOn_bind_eq_error]
  simp only [fst_runOn_expect_bind, runOn_pure, reduceCtorEq, and_false, exists_false, or_false]
  rfl

theorem tooDeep_call :
    Part.call.TooDeep c offset ↔
      ∃ x, c.current.name? = some x ∧ c.advance.current.kind = .openParen ∧
        c.advance.advance.current.kind ≠ .closeParen ∧
        ((Part.arguments 0).TooDeep c.advance.advance offset ∨
          ∃ args height c₁,
            (Part.arguments 0).read.runOn c.advance.advance = (.ok (args, height), c₁) ∧
            maxNesting ≤ height ∧ c.current.start = offset) := by
  rw [Part.TooDeep, Part.runOn_read, Part.step]
  simp only [runOn_bind_ok (runOn_current _), fst_runOn_ident_bind, fst_runOn_expect_bind,
    runOn_ifEat, pure_bind]
  refine exists_congr fun x => and_congr_right fun _ => and_congr_right fun _ => ?_
  by_cases hclose : c.advance.advance.current.kind = .closeParen
  · simp only [hclose, if_pos, fst_runOn_grow_bind]
    simp [maxNesting]
  · rw [if_neg hclose]
    simp only [fst_runOn_bind_eq_error (x := (Part.arguments 0).read), fst_runOn_grow_bind,
      runOn_pure, reduceCtorEq, and_false, or_false, Prod.exists]
    simp [hclose, Part.TooDeep]

theorem tooDeep_arguments {highest : Nat} :
    (Part.arguments highest).TooDeep c offset ↔ (Part.exprOver 0).TooDeep c offset ∨
      ∃ e c₁, (Part.exprOver 0).read.runOn c = (.ok e, c₁) ∧ c₁.current.kind = .comma ∧
        (Part.arguments (max highest c₁.height)).TooDeep c₁.advance offset := by
  rw [Part.TooDeep, Part.runOn_read, Part.step, fst_runOn_bind_eq_error]
  refine or_congr_right (exists_congr fun e => exists_congr fun c₁ => and_congr_right fun _ => ?_)
  rw [runOn_bind_ok (runOn_get c₁), runOn_ifEat]
  by_cases hclose : c₁.current.kind = .closeParen
  · simp [hclose]
  · rw [if_neg hclose, runOn_ifEat]
    by_cases hcomma : c₁.current.kind = .comma
    · rw [if_pos hcomma, fst_runOn_bind_eq_error]
      simp [hcomma, Part.TooDeep]
    · simp [hcomma, Cursor.unexpected_ne_nestingTooDeep]

end

/-! ## Where a part is refused -/

section
variable {p : Part α} {q : Part β} {n m offset : Nat} {c c' : Cursor}

theorem height_binary_gt {op : BinaryOp} {lhs rhs : Expr} :
    maxNesting < (Expr.binary op lhs rhs).height ↔ maxNesting ≤ max lhs.height rhs.height := by
  rw [Expr.height, Nat.lt_succ_iff]

/-- A part that is refused overgrows itself or asks for one that is refused. -/
theorem overgrows_or_asks_of_tooDeep (hp : Tracked p n c) (h : p.TooDeep c offset) :
    Overgrows p n c ∧ c.current.start = offset ∨
      ∃ (β : Type) (q : Part β) (m : Nat) (c' : Cursor), Asks p n c q m c' ∧ q.TooDeep c' offset := by
  obtain ⟨hexpr, rfl⟩ := hp
  cases p with
  | exprOver least =>
    obtain h | ⟨lhs, c₁, hlhs, h⟩ := tooDeep_exprOver.mp h
    · exact .inr ⟨_, _, _, _, .first, h⟩
    · exact .inr ⟨_, _, _, _, .behind hlhs, h⟩
  | chain least lhs =>
    -- The height of the left operand is taken before the right one is read and records its own.
    have hlhs : c.height = lhs.height := hexpr
    obtain ⟨op, hop, h | ⟨rhs, c₁, hrhs, hmore⟩⟩ := tooDeep_chain.mp h
    · exact .inr ⟨_, _, _, _, .right hop, h⟩
    · rw [hlhs, height_exprOver hrhs] at hmore
      obtain ⟨hmax, hstart⟩ | ⟨hlt, h⟩ := hmore
      · exact .inl ⟨.tree (.binary hop hrhs) (height_binary_gt.mpr hmax), hstart⟩
      · exact .inr ⟨_, _, _, _, .joined hop hrhs hlt, h⟩
  | primary =>
    obtain ⟨hmax, hstart⟩ | ⟨hlt, h⟩ := tooDeep_primary.mp h
    · exact .inl ⟨.nesting (Nat.lt_succ_of_le hmax), hstart⟩
    · exact .inr ⟨_, _, _, _, .opened hlt, h⟩
  | atom =>
    obtain ⟨hk, h⟩ | ⟨hk, h⟩ | ⟨hk, h⟩ | ⟨hk, hnext, h⟩ := tooDeep_atom.mp h
    · exact .inr ⟨_, _, _, _, .signed .plus hk, h⟩
    · exact .inr ⟨_, _, _, _, .signed .minus hk, h⟩
    · exact .inr ⟨_, _, _, _, .parenthesized hk, h⟩
    · exact .inr ⟨_, _, _, _, .call hk hnext, h⟩
  | signed op =>
    obtain h | ⟨e, c₁, he, hmax, hstart⟩ := tooDeep_signed.mp h
    · exact .inr ⟨_, _, _, _, .operand, h⟩
    · rw [height_primary he] at hmax
      exact .inl ⟨.tree (.unary he) (by rw [Expr.height]; omega), hstart⟩
  | parenthesized => exact .inr ⟨_, _, _, _, .enclosed, tooDeep_parenthesized.mp h⟩
  | call =>
    obtain ⟨x, hname, hparen, hsome, h | ⟨args, height, c₁, hargs, hmax, hstart⟩⟩ :=
      tooDeep_call.mp h
    · exact .inr ⟨_, _, _, _, .arguments hname hparen hsome, h⟩
    · have hheight := height_arguments hargs
      rw [Nat.zero_max] at hheight
      refine .inl ⟨.tree (.call hname hparen hsome hargs) ?_, hstart⟩
      rw [Expr.height]
      omega
  | arguments highest =>
    obtain h | ⟨e, c₁, he, hcomma, h⟩ := tooDeep_arguments.mp h
    · exact .inr ⟨_, _, _, _, .argument, h⟩
    · rw [height_exprOver he] at h
      exact .inr ⟨_, _, _, _, .others he hcomma, h⟩
  | _ => cases hexpr

/-- A part that overgrows is refused. -/
theorem Overgrows.tooDeep (h : Overgrows p n c) (hp : Tracked p n c) :
    p.TooDeep c c.current.start := by
  obtain ⟨hexpr, rfl⟩ := hp
  cases h with
  | nesting hopen => exact tooDeep_primary.mpr (.inl ⟨Nat.le_of_lt_succ hopen, rfl⟩)
  | tree hbuilds hheight =>
    cases hbuilds with
    | unary he =>
      rw [Expr.height] at hheight
      refine tooDeep_signed.mpr (.inr ⟨_, _, he, ?_, rfl⟩)
      rw [height_primary he]
      omega
    | binary hop hrhs =>
      have hlhs : c.height = _ := hexpr
      refine tooDeep_chain.mpr ⟨_, hop, .inr ⟨_, _, hrhs, .inl ⟨?_, rfl⟩⟩⟩
      rw [hlhs, height_exprOver hrhs]
      exact height_binary_gt.mp hheight
    | call hname hparen hsome hargs =>
      have hargsHeight := height_arguments hargs
      rw [Expr.height] at hheight
      refine tooDeep_call.mpr ⟨_, hname, hparen, hsome, .inr ⟨_, _, _, hargs, ?_, rfl⟩⟩
      omega

/-- A part that asks for one that is refused is refused. -/
theorem Asks.tooDeep (h : Asks p n c q m c') (hp : Tracked p n c) (hq : q.TooDeep c' offset) :
    p.TooDeep c offset := by
  obtain ⟨hexpr, rfl⟩ := hp
  cases h with
  | first => exact tooDeep_exprOver.mpr (.inl hq)
  | behind hlhs => exact tooDeep_exprOver.mpr (.inr ⟨_, _, hlhs, hq⟩)
  | right hop => exact tooDeep_chain.mpr ⟨_, hop, .inl hq⟩
  | joined hop hrhs hheight =>
    have hlhs : c.height = _ := hexpr
    refine tooDeep_chain.mpr ⟨_, hop, .inr ⟨_, _, hrhs, .inr ?_⟩⟩
    rw [hlhs, height_exprOver hrhs]
    exact ⟨hheight, hq⟩
  | opened hopen => exact tooDeep_primary.mpr (.inr ⟨hopen, hq⟩)
  | signed op hk =>
    cases op with
    | plus => exact tooDeep_atom.mpr (.inl ⟨hk, hq⟩)
    | minus => exact tooDeep_atom.mpr (.inr (.inl ⟨hk, hq⟩))
  | parenthesized hk => exact tooDeep_atom.mpr (.inr (.inr (.inl ⟨hk, hq⟩)))
  | call hk hnext => exact tooDeep_atom.mpr (.inr (.inr (.inr ⟨hk, hnext, hq⟩)))
  | operand => exact tooDeep_signed.mpr (.inl hq)
  | enclosed => exact tooDeep_parenthesized.mpr hq
  | arguments hname hparen hsome =>
    exact tooDeep_call.mpr ⟨_, hname, hparen, hsome, .inl hq⟩
  | argument => exact tooDeep_arguments.mpr (.inl hq)
  | others harg hcomma =>
    rw [← height_exprOver harg] at hq
    exact tooDeep_arguments.mpr (.inr ⟨_, _, harg, hcomma, hq⟩)

theorem LeadsTo.tracked (h : LeadsTo p n c q m c') (hp : Tracked p n c) : Tracked q m c' := by
  induction h with
  | refl => exact hp
  | step _ hasks ih => exact hasks.tracked ih

theorem LeadsTo.tooDeep (h : LeadsTo p n c q m c') (hp : Tracked p n c)
    (hq : q.TooDeep c' offset) : p.TooDeep c offset := by
  induction h with
  | refl => exact hq
  | step hleads hasks ih => exact ih (hasks.tooDeep (hleads.tracked hp) hq)

/-- From a part that is refused the parts that are refused lead to one that overgrows, because each is
inside the one before. -/
theorem exists_leadsTo_of_tooDeep {q : Part β} (hleads : LeadsTo p n c q m c')
    (hq : Tracked q m c') (h : q.TooDeep c' offset) :
    ∃ (γ : Type) (r : Part γ) (k : Nat) (c₁ : Cursor),
      LeadsTo p n c r k c₁ ∧ Overgrows r k c₁ ∧ c₁.current.start = offset := by
  -- On the number of readers that may still be within one another, which every part that is asked
  -- for makes smaller.
  induction hsize : q.size c' using Nat.strong_induction_on generalizing β q m c' with
  | _ size ih =>
    obtain ⟨hover, hstart⟩ | ⟨γ, r, k, c₁, hasks, hr⟩ := overgrows_or_asks_of_tooDeep hq h
    · exact ⟨_, _, _, _, hleads, hover, hstart⟩
    · exact ih _ (hsize ▸ (hasks.inside hq.depth).size_lt) (hleads.step hasks)
        (hasks.tracked hq) hr rfl

theorem tooDeep_iff_exists_leadsTo (hp : Tracked p n c) :
    p.TooDeep c offset ↔ ∃ (β : Type) (q : Part β) (m : Nat) (c' : Cursor),
      LeadsTo p n c q m c' ∧ Overgrows q m c' ∧ c'.current.start = offset := by
  constructor
  · exact exists_leadsTo_of_tooDeep .refl hp
  · rintro ⟨β, q, m, c', hleads, hover, rfl⟩
    exact hleads.tooDeep hp (hover.tooDeep (hleads.tracked hp))

end

/-! ## Lists of tokens -/

/-- Where the part is returned, the cursor has the height of its tree, which is within the limit. It is
refused just where reading it leads to a part that overgrows, at the token where that begins. -/
structure Accounted (p : Part Expr) (n : Nat) (c : Cursor) : Prop where
  returned : ∀ ⦃e c'⦄, p.read.runOn c = (.ok e, c') → c'.height = e.height ∧ e.height ≤ maxNesting
  refused : ∀ offset, (p.read.runOn c).1 = .error (.nestingTooDeep offset) ↔
    ∃ (β : Type) (q : Part β) (m : Nat) (c' : Cursor),
      LeadsTo p n c q m c' ∧ Overgrows q m c' ∧ c'.current.start = offset

/-- Whatever the tokens are and wherever an expression, a primary expression or a call is read, its height
is accounted for. -/
theorem accounted (tokens : List Token) (index depth height : Nat) :
    (∀ least, Accounted (.exprOver least) depth
      { Cursor.atIndex tokens index with depth, height }) ∧
    Accounted .primary depth { Cursor.atIndex tokens index with depth, height } ∧
    Accounted .call depth { Cursor.atIndex tokens index with depth, height } := by
  refine ⟨fun least => ?_, ?_, ?_⟩
  · exact ⟨fun _ _ h => measured_exprOver least h, fun _ => tooDeep_iff_exists_leadsTo ⟨trivial, rfl⟩⟩
  · exact ⟨fun _ _ h => measured_primary _ h, fun _ => tooDeep_iff_exists_leadsTo ⟨trivial, rfl⟩⟩
  · have hcall := measured_call (measured_exprOver 0)
    exact ⟨fun _ _ h => hcall h, fun _ => tooDeep_iff_exists_leadsTo ⟨trivial, rfl⟩⟩

/-- `-x + y`. -/
def signedSum : List Token :=
  [⟨.minus, none, 0, 1⟩, ⟨.identifier, some "x", 1, 2⟩, ⟨.plus, none, 3, 4⟩,
    ⟨.identifier, some "y", 5, 6⟩]

/-- One opening parenthesis more than may be open. -/
def openings : List Token :=
  (List.range (maxNesting + 1)).map fun i => ⟨.openParen, none, i, i + 1⟩

theorem accounted_signedSum :
    (∃ e c', (exprOver 0).runOn (Cursor.atIndex signedSum 0) = (.ok e, c') ∧
      e.height = 3 ∧ c'.height = 3) ∧
    ∃ (β : Type) (q : Part β) (m : Nat) (c' : Cursor),
      LeadsTo (.exprOver 0) 0 { Cursor.atIndex openings 0 with depth := 0, height := 0 } q m c' ∧
        Overgrows q m c' ∧ c'.current.start = maxNesting := by
  obtain ⟨hsum, -, -⟩ := accounted signedSum 0 0 0
  obtain ⟨hopenings, -, -⟩ := accounted openings 0 0 0
  obtain ⟨e, he⟩ : ∃ e, ((exprOver 0).runOn (Cursor.atIndex signedSum 0)).1 = .ok e := by
    decide +kernel
  have hthree : ((exprOver 0).runOn (Cursor.atIndex signedSum 0)).2.height = 3 := by
    decide +kernel
  have hrun : (exprOver 0).runOn (Cursor.atIndex signedSum 0) = (.ok e, _) := Prod.ext he rfl
  obtain ⟨hheight, -⟩ := (hsum 0).returned hrun
  refine ⟨⟨e, _, hrun, hheight.symm.trans hthree, hthree⟩, ((hopenings 0).refused _).mp ?_⟩
  decide +kernel

end Parse

end Scriptlet
