-- SUMMARY: Reading without bounds on loops and recursion ends on all tokens, with what reading with bounds gives.
import Scriptlet.Proofs.Parse.Progress
import Scriptlet.Proofs.Parse.Requests

/-!
# Descent

Readers are bounded: recursion by how deep primary expressions may nest, loops by the
tokens that are left. Here they are stated without these bounds. A part of a program is
read by reading the parts in it, and a loop goes on by reading what is left of its part.
That this ends is no matter of the tokens alone, because behind all of them the last one is
seen for ever. Whatever is put in place of the readers that are called deep enough inside
others, it is never called.
-/
namespace Scriptlet

open Scriptlet.Action
open Grammar (operatorOver?)

namespace Parse

/-! ## Reading without bounds -/

/-- A part of a program, or what is left of a part that a loop goes on with. -/
inductive Part : Type → Type
  | program : Part Program
  | decls : Part (List Decl)
  | decl : Part Decl
  | function : Part Function
  | params (function : String) (ps : Params) : Part Params
  | param (function : String) (ps : Params) : Part Params
  | body : Part (List Stmt)
  | stmt : Part Stmt
  | constBinding : Part (String × Expr)
  | varBinding : Part (String × Option Expr)
  | assignment : Part Stmt
  | returnStmt : Part Stmt
  | callStmt : Part Stmt
  | exprOver (least : Nat) : Part Expr
  | chain (least : Nat) (lhs : Expr) : Part Expr
  | primary : Part Expr
  | atom : Part Expr
  | signed (op : UnaryOp) : Part Expr
  | parenthesized : Part Expr
  | call : Part Expr
  | arguments (highest : Nat) : Part (List Expr × Nat)

/-- A reader for each part. -/
abbrev Readers := ∀ ⦃α : Type⦄, Part α → Parse α

/-- Reads a part, the parts in it with other readers. -/
def Part.step (inner : Readers) : {α : Type} → Part α → Parse α
  | _, program => do
    let decls ← inner decls
    return ⟨decls⟩
  | _, decls => do
    if (← current).kind = .endOfInput then return []
    else
      let first ← inner decl
      let others ← inner decls
      return first :: others
  | _, decl => do
    match (← current).kind with
    | .constWord => do
      let (ident, value) ← inner constBinding
      return .const ident value
    | .varWord => do
      let (ident, value) ← inner varBinding
      return .var ident value
    | .funcWord => .func <$> inner function
    | _ => unexpected .declaration
  | _, function => do
    expect .funcWord
    let ident ← ident
    expect .openParen
    let ps ← (do
      if ← eat .closeParen then return {} else inner (params ident {}) : Parse Params)
    expect .openBrace
    let body ← inner body
    return ⟨ident, ps.required, ps.optional, body⟩
  | _, params f ps => do
    let ps ← inner (param f ps)
    if ← eat .closeParen then return ps
    else if ← eat .comma then inner (params f ps)
    else unexpected .commaOrCloseParen
  | _, param f ps => do
    let start := (← current).start
    let ident ← ident
    if ps.contains ident then throw (.duplicateParam f ident start)
    else if ← eat .equals then
      let default ← inner (exprOver 0)
      return { ps with optional := ps.optional ++ [⟨ident, default⟩] }
    else if ps.optional.isEmpty then return { ps with required := ps.required ++ [ident] }
    else throw (.requiredAfterOptional f ident start)
  | _, body => do
    if ← eat .closeBrace then return []
    else
      let first ← inner stmt
      let others ← inner body
      return first :: others
  | _, stmt => do
    let c ← get
    match c.current.kind with
    | .constWord => do
      let (ident, value) ← inner constBinding
      return .const ident value
    | .varWord => do
      let (ident, value) ← inner varBinding
      return .var ident (value.getD .null)
    | .returnWord => inner returnStmt
    | .identifier => if c.next.kind = .openParen then inner callStmt else inner assignment
    | _ => unexpected .statement
  | _, constBinding => do
    expect .constWord
    let ident ← ident
    expect .equals
    let value ← inner (exprOver 0)
    expect .semicolon
    return (ident, value)
  | _, varBinding => do
    expect .varWord
    let ident ← ident
    let value ← if ← eat .equals then some <$> inner (exprOver 0) else pure none
    expect .semicolon
    return (ident, value)
  | _, assignment => do
    let ident ← ident
    expect .equals
    let value ← inner (exprOver 0)
    expect .semicolon
    return .assign ident value
  | _, returnStmt => do
    expect .returnWord
    let value ← inner (exprOver 0)
    expect .semicolon
    return .ret value
  | _, callStmt => do
    let value ← inner call
    expect .semicolon
    return .expr value
  | _, exprOver least => do
    let lhs ← inner primary
    inner (chain least lhs)
  | _, chain least lhs => do
    match ← operator? least with
    | none => return lhs
    | some op =>
      let start := (← current).start
      let below := (← get).height
      advance
      let rhs ← inner (exprOver op.bindingPower.2)
      grow (max below (← get).height) start
      inner (chain least (.binary op lhs rhs))
  | _, primary => nested (inner atom)
  | _, atom => do
    let c ← get
    match c.current.kind with
    | .integer => number Decimal.readInt64? .int
    | .float => number Decimal.readFloat? .float
    | .string => leaf (.string (c.current.text.getD ""))
    | .null => leaf .null
    | .identifier => if c.next.kind = .openParen then inner call else name
    | .plus => inner (signed .plus)
    | .minus => inner (signed .minus)
    | .openParen => inner parenthesized
    | _ => unexpected .expression
  | _, signed op => Parse.signed op (inner primary)
  | _, parenthesized => Parse.parenthesized (inner (exprOver 0))
  | _, call => do
    let start := (← current).start
    let ident ← ident
    expect .openParen
    let (args, highest) ← if ← eat .closeParen then pure ([], 0) else inner (arguments 0)
    grow highest start
    return .call (.name ident) args
  | _, arguments highest => do
    let arg ← inner (exprOver 0)
    let highest := max highest (← get).height
    if ← eat .closeParen then return ([arg], highest)
    else if ← eat .comma then
      let (args, highest) ← inner (arguments highest)
      return (arg :: args, highest)
    else unexpected .commaOrCloseParen

/-- Reads with `n` readers within one another at most. What is called further inside is left to
other readers. -/
def within : (n : Nat) → (deeper : Readers) → Readers
  | 0, deeper => deeper
  | n + 1, deeper => fun _ p => p.step (within n deeper)

/-- Reads a part with bounds on loops and recursion. -/
def Part.read : {α : Type} → Part α → Parse α
  | _, program => Parse.program
  | _, decls => do Parse.decls (← rounds)
  | _, decl => Parse.decl
  | _, function => Parse.function
  | _, params f ps => do Parse.params f (← rounds) ps
  | _, param f ps => Parse.param f ps
  | _, body => do Parse.body (← rounds)
  | _, stmt => Parse.stmt
  | _, constBinding => Parse.constBinding
  | _, varBinding => Parse.varBinding
  | _, assignment => Parse.assignment
  | _, returnStmt => Parse.returnStmt
  | _, callStmt => Parse.callStmt
  | _, exprOver least => Parse.exprOver least
  | _, chain least lhs => do Parse.chain Parse.exprOver least (← rounds) lhs
  | _, primary => Parse.primary maxNesting
  | _, atom => Parse.atom (Parse.primary maxNesting)
  | _, signed op => Parse.signed op (Parse.primary maxNesting)
  | _, parenthesized => Parse.parenthesized Parse.expr
  | _, call => Parse.call Parse.expr
  | _, arguments highest => do Parse.arguments Parse.expr (← rounds) highest

/-! ## Sizes -/

variable {α β : Type}

/-- What is read within a part has a smaller rank if no token was consumed and no primary expression
opened before. -/
def Part.rank : {α : Type} → Part α → Nat
  | _, primary => 0
  -- A right operand is read with a greater power, and no operator binds with more than three.
  | _, chain least _ => 2 * (4 - least) + 1
  | _, exprOver least => 2 * (4 - least) + 2
  | _, signed _ => 11
  | _, parenthesized => 11
  | _, arguments _ => 11
  | _, call => 12
  | _, atom => 13
  | _, constBinding => 11
  | _, varBinding => 11
  | _, assignment => 11
  | _, returnStmt => 11
  | _, callStmt => 13
  | _, stmt => 14
  | _, body => 15
  | _, param _ _ => 11
  | _, params _ _ => 12
  | _, function => 16
  | _, decl => 17
  | _, decls => 18
  | _, program => 19

theorem Part.rank_lt (p : Part α) : p.rank < 20 := by
  cases p <;> simp only [rank] <;> omega

/-- How many readers are within one another at most where the part is read. -/
def Part.size (p : Part α) (c : Cursor) : Nat :=
  20 * (maxNesting - c.depth + c.rest.length) + p.rank

theorem Part.size_lt (p : Part α) (c : Cursor) :
    p.size c < 20 * (maxNesting + 1 + c.rest.length) := by
  have hrank := p.rank_lt
  unfold size
  omega

/-- Where the part `p` is read at the cursor `c`, the part `q` may be read at `c'`: one more primary
expression is open there, or fewer tokens are left, or its rank is smaller. -/
inductive Inside (q : Part β) (c' : Cursor) (p : Part α) (c : Cursor) : Prop
  | opened (hdepth : c.depth < maxNesting) (honward : { c with depth := c.depth + 1 }.Onward c')
  | later (honward : c.Onward c') (hrest : c'.rest.length < c.rest.length)
  | smaller (honward : c.Onward c') (hrank : q.rank < p.rank)

theorem Inside.size_lt {q : Part β} {p : Part α} {c c' : Cursor} (h : Inside q c' p c) :
    q.size c' < p.size c := by
  have hrank := q.rank_lt
  unfold Part.size
  cases h with
  | opened hdepth honward =>
    have hlength := honward.rest.length_le
    rw [honward.depth]
    dsimp only at hlength ⊢
    omega
  | later honward hrest =>
    rw [honward.depth]
    omega
  | smaller honward hsmaller =>
    have hlength := honward.rest.length_le
    rw [honward.depth]
    omega

/-! ## Readers with enough bounds -/

/-- The reader has bounds that suffice to read the part at the cursor. -/
inductive Enough (c : Cursor) : {α : Type} → Part α → Parse α → Prop
  | program : Enough c .program Parse.program
  | decls {rounds} (hrounds : c.rest.length < rounds.length) :
    Enough c .decls (Parse.decls rounds)
  | decl : Enough c .decl Parse.decl
  | function : Enough c .function Parse.function
  | params {f rounds ps} (hrounds : c.rest.length < rounds.length) :
    Enough c (.params f ps) (Parse.params f rounds ps)
  | param {f ps} : Enough c (.param f ps) (Parse.param f ps)
  | body {rounds} (hrounds : c.rest.length < rounds.length) : Enough c .body (Parse.body rounds)
  | stmt : Enough c .stmt Parse.stmt
  | constBinding : Enough c .constBinding Parse.constBinding
  | varBinding : Enough c .varBinding Parse.varBinding
  | assignment : Enough c .assignment Parse.assignment
  | returnStmt : Enough c .returnStmt Parse.returnStmt
  | callStmt : Enough c .callStmt Parse.callStmt
  -- The power rises to two and then to four, beyond which there are no operators.
  | exprOver {k levels least} (hopen : maxNesting ≤ c.depth + k)
    (hlevels : 4 ≤ least + 2 * levels) :
    Enough c (.exprOver least) (operators (Parse.primary k) levels least)
  | chain {k levels least rounds lhs} (hopen : maxNesting ≤ c.depth + k)
    (hlevels : 2 ≤ least + 2 * levels) (hrounds : c.rest.length < rounds.length) :
    Enough c (.chain least lhs) (Parse.chain (operators (Parse.primary k) levels) least rounds lhs)
  | unchained {least lhs} (hleast : 4 ≤ least) : Enough c (.chain least lhs) (pure lhs)
  | primary {k} (hopen : maxNesting ≤ c.depth + k) : Enough c .primary (Parse.primary k)
  | atom {k} (hopen : maxNesting ≤ c.depth + k) : Enough c .atom (Parse.atom (Parse.primary k))
  | signed {k op} (hopen : maxNesting ≤ c.depth + k) :
    Enough c (.signed op) (Parse.signed op (Parse.primary k))
  | parenthesized {k} (hopen : maxNesting ≤ c.depth + k) :
    Enough c .parenthesized (Parse.parenthesized (operators (Parse.primary k) operatorLevels 0))
  | call {k} (hopen : maxNesting ≤ c.depth + k) :
    Enough c .call (Parse.call (operators (Parse.primary k) operatorLevels 0))
  | arguments {k rounds highest} (hopen : maxNesting ≤ c.depth + k)
    (hrounds : c.rest.length < rounds.length) :
    Enough c (.arguments highest)
      (Parse.arguments (operators (Parse.primary k) operatorLevels 0) rounds highest)

section
variable {c c₁ : Cursor} {x y : Parse α} {f g : α → Parse β}

theorem Enough.onward {p : Part α} (h : Enough c p x) (hc : c.Onward c₁) : Enough c₁ p x := by
  have hlength := hc.rest.length_le
  cases h with
  | decls hrounds => exact .decls (by omega)
  | params hrounds => exact .params (by omega)
  | body hrounds => exact .body (by omega)
  | exprOver hopen hlevels => exact .exprOver (hc.depth ▸ hopen) hlevels
  | chain hopen hlevels hrounds => exact .chain (hc.depth ▸ hopen) hlevels (by omega)
  | unchained hleast => exact .unchained hleast
  | primary hopen => exact .primary (hc.depth ▸ hopen)
  | atom hopen => exact .atom (hc.depth ▸ hopen)
  | signed hopen => exact .signed (hc.depth ▸ hopen)
  | parenthesized hopen => exact .parenthesized (hc.depth ▸ hopen)
  | call hopen => exact .call (hc.depth ▸ hopen)
  | arguments hopen hrounds => exact .arguments (hc.depth ▸ hopen) (by omega)
  | _ => constructor

/-- The readers do what ones with enough bounds do, for all that may be read inside the part. -/
def Settled (inner : Readers) (p : Part α) (c : Cursor) : Prop :=
  ∀ ⦃β : Type⦄ (q : Part β) (y : Parse β) (c' : Cursor), Inside q c' p c → Enough c' q y →
    (inner q).runOn c' = y.runOn c'

/-- The readers do the same at the cursor and wherever it is moved onward to. -/
def AgreeFrom (c : Cursor) (x y : Parse α) : Prop :=
  ∀ ⦃c₁⦄, c.Onward c₁ → x.runOn c₁ = y.runOn c₁

theorem runOn_bind_congr (hx : x.runOn c = y.runOn c) (hmoves : Moves y)
    (hf : ∀ a c₁, y.runOn c = (.ok a, c₁) → c.Onward c₁ → (f a).runOn c₁ = (g a).runOn c₁) :
    (x >>= f).runOn c = (y >>= g).runOn c := by
  rw [runOn_bind, runOn_bind, hx]
  rcases hrun : y.runOn c with ⟨e | a, c₁⟩
  · rfl
  · exact hf a c₁ hrun (hmoves.onward hrun)

theorem runOn_ifEat_congr {kind : Token.Kind} {x' y' : Parse α}
    (hx : c.current.kind = kind → x.runOn c.advance = x'.runOn c.advance)
    (hy : y.runOn c = y'.runOn c) :
    (do if ← eat kind then x else y : Parse α).runOn c =
      (do if ← eat kind then x' else y' : Parse α).runOn c := by
  rw [runOn_ifEat, runOn_ifEat]
  split
  · next hkind => exact hx hkind
  · exact hy

namespace AgreeFrom

theorem runOn (h : AgreeFrom c x y) : x.runOn c = y.runOn c := h (.refl c)

theorem refl (x : Parse α) : AgreeFrom c x x := fun _ _ => rfl

theorem bind (hx : AgreeFrom c x y) (hmoves : Moves y) (hf : ∀ a, AgreeFrom c (f a) (g a)) :
    AgreeFrom c (x >>= f) (y >>= g) :=
  fun _ hc => runOn_bind_congr (hx hc) hmoves fun a _ _ hc₁ => hf a (hc.trans hc₁)

theorem behind (hmoves : Moves x) (hf : ∀ a, AgreeFrom c (f a) (g a)) :
    AgreeFrom c (x >>= f) (x >>= g) :=
  (refl x).bind hmoves hf

theorem map (hx : AgreeFrom c x y) (k : α → β) : AgreeFrom c (k <$> x) (k <$> y) := by
  intro c₁ hc
  rw [runOn_map, runOn_map, hx hc]

theorem ifEat (kind : Token.Kind) {x' y' : Parse α} (hx : AgreeFrom c x x')
    (hy : AgreeFrom c y y') :
    AgreeFrom c (do if ← eat kind then x else y) (do if ← eat kind then x' else y') :=
  fun c₁ hc => runOn_ifEat_congr (fun _ => hx (hc.trans (.advance c₁))) (hy hc)

end AgreeFrom

namespace Settled

variable {inner : Readers} {p : Part α} {q : Part β} {z : Parse β}

theorem agree (h : Settled inner p c) (hrank : q.rank < p.rank) (hz : Enough c q z) :
    AgreeFrom c (inner q) z :=
  fun _ hc => h q z _ (.smaller hc hrank) (hz.onward hc)

theorem agree_later (h : Settled inner p c) (hc : c.Onward c₁)
    (hrest : c₁.rest.length < c.rest.length) (hz : Enough c₁ q z) : AgreeFrom c₁ (inner q) z :=
  fun _ hc₁ => h q z _ (.later (hc.trans hc₁) (hc₁.rest.length_le.trans_lt hrest)) (hz.onward hc₁)

/-- A loop that takes its rounds from the cursor has enough of them. -/
theorem agree_rounds {k : List Token → Parse β} (h : Settled inner p c) (hrank : q.rank < p.rank)
    (hk : ∀ c₁ rs, c.Onward c₁ → c₁.rest.length < rs.length → Enough c₁ q (k rs)) :
    AgreeFrom c (inner q) (Parse.rounds >>= k) := by
  intro c₁ hc
  rw [runOn_bind_ok (runOn_rounds c₁)]
  exact h q _ c₁ (.smaller hc hrank) (hk c₁ _ hc (Nat.lt_succ_self _))

/-- Expressions that are read as a whole. -/
theorem agree_expr {k : Nat} (h : Settled inner p c) (hrank : 10 < p.rank)
    (hopen : maxNesting ≤ c.depth + k) :
    AgreeFrom c (inner (.exprOver 0)) (operators (Parse.primary k) operatorLevels 0) :=
  h.agree hrank (.exprOver hopen (by decide))

theorem agree_whole (h : Settled inner p c) (hrank : 10 < p.rank) :
    AgreeFrom c (inner (.exprOver 0)) expr :=
  h.agree_expr hrank (Nat.le_add_left _ _)

end Settled

/-! ## What is read inside a part -/

section
variable {inner : Readers} {k : Nat}

theorem step_arguments {rounds : List Token} {highest : Nat}
    (h : Settled inner (.arguments highest) c) (hopen : maxNesting ≤ c.depth + k)
    (hrounds : c.rest.length < rounds.length) :
    ((Part.arguments highest).step inner).runOn c =
      (arguments (operators (primary k) operatorLevels 0) rounds highest).runOn c := by
  cases rounds with
  | nil => exact absurd hrounds (Nat.not_lt_zero _)
  | cons token rounds =>
    have hmoves := moves_operators (moves_primary k) operatorLevels 0
    refine runOn_bind_congr (h.agree_expr (by simp [Part.rank]) hopen).runOn hmoves
      fun arg c₁ harg hc => ?_
    rw [runOn_bind_ok (runOn_get c₁), runOn_bind_ok (runOn_get c₁)]
    refine runOn_ifEat_congr (fun _ => rfl) (runOn_ifEat_congr (fun hcomma => ?_) rfl)
    -- A comma that is seen over and over begins no argument.
    have hlt := length_lt_of_comma hmoves
      (refuses_operators (refuses_primary (by decide) k) operatorLevels 0) harg hcomma
    have hadvance := hc.trans (.advance c₁)
    have hmore : Enough c₁.advance (.arguments (max highest c₁.height))
        (arguments (operators (primary k) operatorLevels 0) rounds (max highest c₁.height)) :=
      .arguments (hadvance.depth ▸ hopen) (hlt.trans_le (Nat.le_of_lt_succ hrounds))
    exact ((h.agree_later hadvance hlt hmore).bind (moves_arguments hmoves _ _)
      fun _ => .refl _).runOn

theorem step_call (h : Settled inner .call c) (hopen : maxNesting ≤ c.depth + k) :
    (Part.call.step inner).runOn c =
      (call (operators (primary k) operatorLevels 0)).runOn c := by
  have hmoves := moves_operators (moves_primary k) operatorLevels 0
  refine AgreeFrom.runOn (.behind moves_current fun t => .behind moves_ident fun x =>
    .behind (moves_expect _) fun _ => .ifEat _ (.refl _) ?_)
  rw [← bind_assoc]
  have hargs : AgreeFrom c (inner (.arguments 0))
      (rounds >>= fun rs => arguments (operators (primary k) operatorLevels 0) rs 0) :=
    h.agree_rounds (by simp [Part.rank]) fun _ _ hc => .arguments (hc.depth ▸ hopen)
  exact hargs.bind (moves_rounds.bind fun rs => moves_arguments hmoves rs 0) fun _ => .refl _

/-- A right operand is read with a greater power, that of sums or that of products. -/
theorem lt_bindingPower_of_operatorOver? {least : Nat} {kind : Token.Kind} {op : BinaryOp}
    (h : operatorOver? least kind = some op) :
    least < op.bindingPower.2 ∧ (op.bindingPower.2 = 2 ∨ op.bindingPower.2 = 4) := by
  obtain ⟨m, -, rfl, hleast⟩ | ⟨a, -, rfl, hleast⟩ := Grammar.operatorOver?_eq_some h
  · rw [Grammar.bindingPower_mul]
    exact ⟨Nat.lt_succ_of_le hleast, .inr rfl⟩
  · rw [Grammar.bindingPower_add]
    exact ⟨Nat.lt_succ_of_le hleast, .inl rfl⟩

theorem step_chain {levels least : Nat} {rounds : List Token} {lhs : Expr}
    (h : Settled inner (.chain least lhs) c) (hopen : maxNesting ≤ c.depth + k)
    (hlevels : 2 ≤ least + 2 * levels) (hrounds : c.rest.length < rounds.length) :
    ((Part.chain least lhs).step inner).runOn c =
      (chain (operators (primary k) levels) least rounds lhs).runOn c := by
  cases rounds with
  | nil => exact absurd hrounds (Nat.not_lt_zero _)
  | cons token rounds =>
    rw [Part.step, chain, runOn_bind_ok (runOn_operator? least c),
      runOn_bind_ok (runOn_operator? least c)]
    cases hop : operatorOver? least c.current.kind with
    | none => rfl
    | some op =>
      obtain ⟨hless, htwo⟩ := lt_bindingPower_of_operatorOver? hop
      have hmoves (least : Nat) := moves_operators (moves_primary k) levels least
      simp only [runOn_bind_ok (runOn_current _), runOn_bind_ok (runOn_get _),
        runOn_bind_ok (runOn_advance _)]
      have hadvance := Cursor.Onward.advance c
      refine runOn_bind_congr ?_ (hmoves _) fun rhs c₁ hrhs hc => ?_
      · have hrank : (Part.exprOver op.bindingPower.2).rank < (Part.chain least lhs).rank := by
          simp only [Part.rank]
          omega
        exact h.agree hrank (.exprOver hopen (by omega)) hadvance
      · -- An operator that is seen over and over begins no right operand.
        have hlt := length_lt_of_operator (hmoves _)
          (refuses_operators (refuses_primary (Token.Kind.isLeaf_of_operatorOver? hop) k) _ _) hrhs
        have hmore : Enough c₁ (.chain least (.binary op lhs rhs))
            (chain (operators (primary k) levels) least rounds (.binary op lhs rhs)) :=
          .chain ((hadvance.trans hc).depth ▸ hopen) hlevels
            (hlt.trans_le (Nat.le_of_lt_succ hrounds))
        exact AgreeFrom.runOn (.behind moves_get fun _ => .behind (moves_grow _ _) fun _ =>
          h.agree_later (hadvance.trans hc) hlt hmore)

theorem step_unchained {least : Nat} {lhs : Expr} (hleast : 4 ≤ least) :
    ((Part.chain least lhs).step inner).runOn c = (pure lhs : Parse Expr).runOn c := by
  rw [Part.step, runOn_bind_ok (runOn_operator? least c),
    Grammar.operatorOver?_none_mono (Grammar.operatorOver?_four _) hleast]

theorem step_exprOver {levels least : Nat} (h : Settled inner (.exprOver least) c)
    (hopen : maxNesting ≤ c.depth + k) (hlevels : 4 ≤ least + 2 * levels) :
    ((Part.exprOver least).step inner).runOn c =
      (operators (primary k) levels least).runOn c := by
  have hprimary := h.agree (by simp [Part.rank]) (.primary hopen)
  cases levels with
  | zero =>
    rw [operators, ← bind_pure (primary k)]
    exact (hprimary.bind (moves_primary k) fun lhs =>
      h.agree (by simp [Part.rank]) (.unchained hlevels)).runOn
  | succ levels =>
    exact (hprimary.bind (moves_primary k) fun lhs => h.agree_rounds (by simp [Part.rank])
      fun c₁ rs hc => .chain (hc.depth ▸ hopen) (by omega)).runOn

theorem step_primary (h : Settled inner .primary c) (hopen : maxNesting ≤ c.depth + k) :
    (Part.primary.step inner).runOn c = (primary k).runOn c := by
  rw [Part.step, runOn_nested]
  by_cases hdepth : maxNesting ≤ c.depth
  · rw [if_pos hdepth]
    cases k with
    | zero => rfl
    | succ k => rw [primary, runOn_nested, if_pos hdepth]
  · cases k with
    | zero => exact absurd hopen hdepth
    | succ k =>
      have hatom : Enough { c with depth := c.depth + 1 } .atom (atom (primary k)) :=
        .atom (by dsimp only; omega)
      rw [if_neg hdepth, primary, runOn_nested, if_neg hdepth,
        h _ _ _ (.opened (Nat.lt_of_not_le hdepth) (.refl _)) hatom]

theorem step_atom (h : Settled inner .atom c) (hopen : maxNesting ≤ c.depth + k) :
    (Part.atom.step inner).runOn c = (atom (primary k)).runOn c := by
  refine AgreeFrom.runOn (.behind moves_get fun c₁ => ?_)
  cases c₁.current.kind with
  | identifier =>
    dsimp only
    split
    · exact h.agree (by simp [Part.rank]) (.call hopen)
    · exact .refl _
  | plus => exact h.agree (by simp [Part.rank]) (.signed hopen)
  | minus => exact h.agree (by simp [Part.rank]) (.signed hopen)
  | openParen => exact h.agree (by simp [Part.rank]) (.parenthesized hopen)
  | _ => exact .refl _

theorem step_signed {op : UnaryOp} (h : Settled inner (.signed op) c)
    (hopen : maxNesting ≤ c.depth + k) :
    ((Part.signed op).step inner).runOn c = (signed op (primary k)).runOn c :=
  AgreeFrom.runOn (.behind moves_current fun _ => .behind moves_advance fun _ =>
    (h.agree (by simp [Part.rank]) (.primary hopen)).bind (moves_primary k) fun _ => .refl _)

theorem step_parenthesized (h : Settled inner .parenthesized c)
    (hopen : maxNesting ≤ c.depth + k) :
    (Part.parenthesized.step inner).runOn c =
      (parenthesized (operators (primary k) operatorLevels 0)).runOn c :=
  AgreeFrom.runOn (.behind moves_advance fun _ =>
    (h.agree_expr (by simp [Part.rank]) hopen).bind (moves_operators (moves_primary k) _ _)
      fun _ => .refl _)

end

section
variable {inner : Readers}

theorem step_constBinding (h : Settled inner .constBinding c) :
    (Part.constBinding.step inner).runOn c = constBinding.runOn c :=
  AgreeFrom.runOn (.behind (moves_expect _) fun _ => .behind moves_ident fun _ =>
    .behind (moves_expect _) fun _ => (h.agree_whole (by simp [Part.rank])).bind moves_expr fun _ =>
      .refl _)

theorem step_varBinding (h : Settled inner .varBinding c) :
    (Part.varBinding.step inner).runOn c = varBinding.runOn c := by
  refine AgreeFrom.runOn (.behind (moves_expect _) fun _ => .behind moves_ident fun _ =>
    .ifEat _ ?_ (.refl _))
  exact ((h.agree_whole (by simp [Part.rank])).map some).bind (moves_expr.map some) fun _ => .refl _

theorem step_assignment (h : Settled inner .assignment c) :
    (Part.assignment.step inner).runOn c = assignment.runOn c :=
  AgreeFrom.runOn (.behind moves_ident fun _ => .behind (moves_expect _) fun _ =>
    (h.agree_whole (by simp [Part.rank])).bind moves_expr fun _ => .refl _)

theorem step_returnStmt (h : Settled inner .returnStmt c) :
    (Part.returnStmt.step inner).runOn c = returnStmt.runOn c :=
  AgreeFrom.runOn (.behind (moves_expect _) fun _ =>
    (h.agree_whole (by simp [Part.rank])).bind moves_expr fun _ => .refl _)

theorem step_callStmt (h : Settled inner .callStmt c) :
    (Part.callStmt.step inner).runOn c = callStmt.runOn c :=
  AgreeFrom.runOn ((h.agree (by simp [Part.rank]) (.call (Nat.le_add_left _ _))).bind
    (beginsWithName_call moves_expr).moves fun _ => .refl _)

theorem step_stmt (h : Settled inner .stmt c) :
    (Part.stmt.step inner).runOn c = stmt.runOn c := by
  refine AgreeFrom.runOn (.behind moves_get fun c₁ => ?_)
  cases c₁.current.kind with
  | constWord =>
    exact (h.agree (by simp [Part.rank]) .constBinding).bind moves_constBinding fun _ => .refl _
  | varWord =>
    exact (h.agree (by simp [Part.rank]) .varBinding).bind moves_varBinding fun _ => .refl _
  | returnWord => exact h.agree (by simp [Part.rank]) .returnStmt
  | identifier =>
    dsimp only
    split
    · exact h.agree (by simp [Part.rank]) .callStmt
    · exact h.agree (by simp [Part.rank]) .assignment
  | _ => exact .refl _

theorem step_param {f : String} {ps : Params} (h : Settled inner (.param f ps) c) :
    ((Part.param f ps).step inner).runOn c = (param f ps).runOn c := by
  rw [param_eq]
  refine AgreeFrom.runOn (.behind moves_current fun t => .behind moves_ident fun x => ?_)
  split
  · exact .refl _
  · refine .ifEat _ ?_ (.refl _)
    exact (h.agree_whole (by simp [Part.rank])).bind moves_expr fun _ => .refl _

theorem step_params {f : String} {rounds : List Token} {ps : Params}
    (h : Settled inner (.params f ps) c) (hrounds : c.rest.length < rounds.length) :
    ((Part.params f ps).step inner).runOn c = (params f rounds ps).runOn c := by
  cases rounds with
  | nil => exact absurd hrounds (Nat.not_lt_zero _)
  | cons token rounds =>
    refine runOn_bind_congr (h.agree (by simp [Part.rank]) .param).runOn (moves_param f ps)
      fun ps₁ c₁ hps hc => ?_
    refine runOn_ifEat_congr (fun _ => rfl) (runOn_ifEat_congr (fun hcomma => ?_) rfl)
    have hlt := length_lt_of_comma (moves_param f ps) (refuses_param f ps (by decide)) hps hcomma
    exact (h.agree_later (hc.trans (.advance c₁)) hlt
      (.params (hlt.trans_le (Nat.le_of_lt_succ hrounds)))).runOn

theorem step_body {rounds : List Token} (h : Settled inner .body c)
    (hrounds : c.rest.length < rounds.length) :
    (Part.body.step inner).runOn c = (body rounds).runOn c := by
  cases rounds with
  | nil => exact absurd hrounds (Nat.not_lt_zero _)
  | cons token rounds =>
    refine runOn_ifEat_congr (fun _ => rfl) ?_
    refine runOn_bind_congr (h.agree (by simp [Part.rank]) .stmt).runOn moves_stmt
      fun s c₁ hs hc => ?_
    have hlt := progresses_stmt c s c₁ hs
    have hmore := h.agree_later hc hlt (.body (hlt.trans_le (Nat.le_of_lt_succ hrounds)))
    exact (hmore.bind (moves_body rounds) fun _ => .refl _).runOn

theorem step_function (h : Settled inner .function c) :
    (Part.function.step inner).runOn c = function.runOn c := by
  refine AgreeFrom.runOn (.behind (moves_expect _) fun _ => .behind moves_ident fun x =>
    .behind (moves_expect _) fun _ => ?_)
  refine AgreeFrom.bind ?_ (moves_paramList x) fun ps => .behind (moves_expect _) fun _ => ?_
  · exact .ifEat _ (.refl _) (h.agree_rounds (by simp [Part.rank]) fun _ _ _ => .params)
  · rw [← bind_assoc]
    exact (h.agree_rounds (by simp [Part.rank]) fun _ _ _ => .body).bind
      (moves_rounds.bind moves_body) fun _ => .refl _

theorem step_decl (h : Settled inner .decl c) :
    (Part.decl.step inner).runOn c = decl.runOn c := by
  refine AgreeFrom.runOn (.behind moves_current fun t => ?_)
  cases t.kind with
  | constWord =>
    exact (h.agree (by simp [Part.rank]) .constBinding).bind moves_constBinding fun _ => .refl _
  | varWord =>
    exact (h.agree (by simp [Part.rank]) .varBinding).bind moves_varBinding fun _ => .refl _
  | funcWord => exact (h.agree (by simp [Part.rank]) .function).map _
  | _ => exact .refl _

theorem step_decls {rounds : List Token} (h : Settled inner .decls c)
    (hrounds : c.rest.length < rounds.length) :
    (Part.decls.step inner).runOn c = (decls rounds).runOn c := by
  cases rounds with
  | nil => exact absurd hrounds (Nat.not_lt_zero _)
  | cons token rounds =>
    rw [Part.step, decls, runOn_bind_ok (runOn_current c), runOn_bind_ok (runOn_current c)]
    split
    · rfl
    · refine runOn_bind_congr (h.agree (by simp [Part.rank]) .decl).runOn moves_decl
        fun d c₁ hd hc => ?_
      have hlt := progresses_decl c d c₁ hd
      have hmore := h.agree_later hc hlt (.decls (hlt.trans_le (Nat.le_of_lt_succ hrounds)))
      exact (hmore.bind (moves_decls rounds) fun _ => .refl _).runOn

theorem step_program (h : Settled inner .program c) :
    (Part.program.step inner).runOn c = program.runOn c := by
  refine AgreeFrom.runOn ?_
  rw [Part.step, program, ← bind_assoc]
  exact (h.agree_rounds (by simp [Part.rank]) fun _ _ _ => .decls).bind
    (moves_rounds.bind moves_decls) fun _ => .refl _

/-- Where the readers inside a part are settled, the reader of the part does what one with enough
bounds does. -/
theorem step_eq {p : Part α} (hx : Enough c p x) (h : Settled inner p c) :
    (p.step inner).runOn c = x.runOn c := by
  cases hx with
  | program => exact step_program h
  | decls hrounds => exact step_decls h hrounds
  | decl => exact step_decl h
  | function => exact step_function h
  | params hrounds => exact step_params h hrounds
  | param => exact step_param h
  | body hrounds => exact step_body h hrounds
  | stmt => exact step_stmt h
  | constBinding => exact step_constBinding h
  | varBinding => exact step_varBinding h
  | assignment => exact step_assignment h
  | returnStmt => exact step_returnStmt h
  | callStmt => exact step_callStmt h
  | exprOver hopen hlevels => exact step_exprOver h hopen hlevels
  | chain hopen hlevels hrounds => exact step_chain h hopen hlevels hrounds
  | unchained hleast => exact step_unchained hleast
  | primary hopen => exact step_primary h hopen
  | atom hopen => exact step_atom h hopen
  | signed hopen => exact step_signed h hopen
  | parenthesized hopen => exact step_parenthesized h hopen
  | call hopen => exact step_call h hopen
  | arguments hopen hrounds => exact step_arguments h hopen hrounds

end

/-- More readers within one another than the part has size are enough: what is put in place of
deeper ones is never called. -/
theorem within_eq (deeper : Readers) {n : Nat} {p : Part α} (hx : Enough c p x)
    (hn : p.size c < n) : (within n deeper p).runOn c = x.runOn c := by
  induction n generalizing α p x c with
  | zero => exact absurd hn (Nat.not_lt_zero _)
  | succ n ih =>
    exact step_eq hx fun β q y c' hinside hy =>
      ih hy (hinside.size_lt.trans_le (Nat.le_of_lt_succ hn))

/-- The bounds with which a part is read are enough at every cursor. -/
theorem Part.exists_enough (p : Part α) (c : Cursor) :
    ∃ x, Enough c p x ∧ p.read.runOn c = x.runOn c := by
  have hopen : maxNesting ≤ c.depth + maxNesting := Nat.le_add_left _ _
  have hlevels (least : Nat) : 4 ≤ least + 2 * operatorLevels := Nat.le_add_left_of_le (by decide)
  have hrounds : c.rest.length < (c.final :: c.rest).length := Nat.lt_succ_self _
  cases p with
  | program => exact ⟨_, .program, rfl⟩
  | decls => exact ⟨_, .decls hrounds, runOn_bind_ok (runOn_rounds c)⟩
  | decl => exact ⟨_, .decl, rfl⟩
  | function => exact ⟨_, .function, rfl⟩
  | params => exact ⟨_, .params hrounds, runOn_bind_ok (runOn_rounds c)⟩
  | param => exact ⟨_, .param, rfl⟩
  | body => exact ⟨_, .body hrounds, runOn_bind_ok (runOn_rounds c)⟩
  | stmt => exact ⟨_, .stmt, rfl⟩
  | constBinding => exact ⟨_, .constBinding, rfl⟩
  | varBinding => exact ⟨_, .varBinding, rfl⟩
  | assignment => exact ⟨_, .assignment, rfl⟩
  | returnStmt => exact ⟨_, .returnStmt, rfl⟩
  | callStmt => exact ⟨_, .callStmt, rfl⟩
  | exprOver least => exact ⟨_, .exprOver hopen (hlevels least), rfl⟩
  | chain least lhs =>
    have hchain : 2 ≤ least + 2 * operatorLevels := (hlevels least).trans' (by decide)
    exact ⟨_, .chain hopen hchain hrounds, runOn_bind_ok (runOn_rounds c)⟩
  | primary => exact ⟨_, .primary hopen, rfl⟩
  | atom => exact ⟨_, .atom hopen, rfl⟩
  | signed => exact ⟨_, .signed hopen, rfl⟩
  | parenthesized => exact ⟨_, .parenthesized hopen, rfl⟩
  | call => exact ⟨_, .call hopen, rfl⟩
  | arguments => exact ⟨_, .arguments hopen hrounds, runOn_bind_ok (runOn_rounds c)⟩

/-- Reading a part with bounds on loops and recursion gives what it gives without them. -/
theorem within_read (deeper : Readers) {n : Nat} {p : Part α} (hn : p.size c < n) :
    (within n deeper p).runOn c = p.read.runOn c := by
  obtain ⟨x, hx, hread⟩ := p.exists_enough c
  rw [hread]
  exact within_eq deeper hx hn

/-- All readers with enough bounds for a part do the same. -/
theorem Enough.runOn_eq {p : Part α} (hx : Enough c p x) (hy : Enough c p y) :
    x.runOn c = y.runOn c := by
  have hsize := Nat.lt_succ_self (p.size c)
  exact (within_eq (fun _ q => q.read) hx hsize).symm.trans (within_eq _ hy hsize)

/-- A part is read by reading the parts in it. -/
theorem Part.runOn_read (p : Part α) (c : Cursor) :
    p.read.runOn c = (p.step fun _ q => q.read).runOn c := by
  obtain ⟨x, hx, hread⟩ := p.exists_enough c
  rw [hread]
  refine (step_eq hx fun β q y c' _ hy => ?_).symm
  obtain ⟨z, hz, hread⟩ := q.exists_enough c'
  exact hread.trans (hz.runOn_eq hy)

end

/-! ## Lists of tokens -/

section
variable {tokens : List Token}

theorem Progresses.exists_atIndex {x : Parse α} (hx : Progresses x) (hmoves : Moves x)
    {index height : Nat} {a : α} {c' : Cursor}
    (h : x.runOn { Cursor.atIndex tokens index with height } = (.ok a, c')) :
    ∃ index' height', index < index' ∧ index' ≤ tokens.length ∧
      c' = { Cursor.atIndex tokens index' with height := height' } := by
  have hlt := hx _ a c' h
  have hstart : (Cursor.ofTokens tokens).Onward { Cursor.atIndex tokens index with height } :=
    ⟨List.drop_suffix index tokens, rfl, rfl⟩
  obtain ⟨index', hindex', height', rfl⟩ := (hstart.trans (hmoves.onward h)).exists_atIndex
  refine ⟨index', height', ?_, hindex', rfl⟩
  simp only [Cursor.atIndex, List.length_drop] at hlt
  omega

/-- Declarations are read up to the end of input. -/
theorem kind_current_of_decls {rounds : List Token} {ds : List Decl} {c c' : Cursor}
    (h : (decls rounds).runOn c = (.ok ds, c')) : c'.current.kind = .endOfInput := by
  induction rounds generalizing c ds with
  | nil => cases h
  | cons token rounds ih =>
    obtain ⟨hend, -, rfl⟩ | ⟨-, -, c₁, -, ds', c₂, hmore, -, rfl⟩ := runOn_decls_eq_ok.mp h
    · exact hend
    · exact ih hmore

/-- A cursor on a list that is not empty stands before one of its tokens. -/
theorem mem_current (hne : tokens ≠ []) {c : Cursor} (h : (Cursor.ofTokens tokens).Onward c) :
    c.current ∈ tokens := by
  unfold Cursor.current
  cases hrest : c.rest with
  | nil =>
    rw [h.final, Cursor.ofTokens, Cursor.atIndex, List.getLast?_eq_getLast_of_ne_nil hne]
    exact List.getLast_mem hne
  | cons token rest => exact h.rest.mem (by simp [hrest])

/-- No list of tokens without an end of input is a program. -/
theorem ofTokens_ne_ok (hne : tokens ≠ []) (h : ∀ t ∈ tokens, t.kind ≠ .endOfInput) (p : Program) :
    Program.ofTokens tokens ≠ .ok p := by
  intro hp
  rcases hrun : program.runOn (Cursor.ofTokens tokens) with ⟨r, c'⟩
  obtain rfl : r = .ok p := by rw [← hp, Program.ofTokens, hrun]
  have honward := moves_program.onward hrun
  rw [program, runOn_bind_ok (runOn_rounds _)] at hrun
  obtain ⟨ds, c₁, hds, hpure⟩ := runOn_bind_eq_ok.mp hrun
  cases hpure
  exact h c'.current (mem_current hne honward) (kind_current_of_decls hds)

/-- Whatever the tokens are, where a declaration or statement is read the parser gets further, every
part is read with boundedly many readers within one another, and there is no program where there is
no end of input. -/
theorem progress (tokens : List Token) :
    (∀ index height d c', decl.runOn { Cursor.atIndex tokens index with height } = (.ok d, c') →
      ∃ index' height', index < index' ∧ index' ≤ tokens.length ∧
        c' = { Cursor.atIndex tokens index' with height := height' }) ∧
    (∀ index height s c', stmt.runOn { Cursor.atIndex tokens index with height } = (.ok s, c') →
      ∃ index' height', index < index' ∧ index' ≤ tokens.length ∧
        c' = { Cursor.atIndex tokens index' with height := height' }) ∧
    (∀ index depth height, ∀ ⦃α : Type⦄ (p : Part α) (deeper : Readers),
      (within (20 * (maxNesting + 1 + tokens.length)) deeper p).runOn
          { Cursor.atIndex tokens index with depth, height } =
        p.read.runOn { Cursor.atIndex tokens index with depth, height }) ∧
    (tokens ≠ [] → (∀ t ∈ tokens, t.kind ≠ .endOfInput) →
      ∀ p, Program.ofTokens tokens ≠ .ok p) := by
  refine ⟨fun index height d c' h => progresses_decl.exists_atIndex moves_decl h,
    fun index height s c' h => progresses_stmt.exists_atIndex moves_stmt h,
    fun index depth height α p deeper => within_read deeper ?_, ofTokens_ne_ok⟩
  have hsize := p.size_lt { Cursor.atIndex tokens index with depth, height }
  simp only [Cursor.atIndex, List.length_drop] at hsize ⊢
  omega

/-- `var x;` without an end of input. -/
def unended : List Token :=
  [⟨.varWord, none, 0, 3⟩, ⟨.identifier, some "x", 4, 5⟩, ⟨.semicolon, none, 5, 6⟩]

theorem progress_unended :
    (∃ c', decl.runOn (Cursor.atIndex unended 0) = (.ok (.var "x" none), c') ∧
      ∃ index' height', 0 < index' ∧ index' ≤ 3 ∧
        c' = { Cursor.atIndex unended index' with height := height' }) ∧
    (unended ≠ [] ∧ (∀ t ∈ unended, t.kind ≠ .endOfInput)) ∧
      ∀ p, Program.ofTokens unended ≠ .ok p := by
  obtain ⟨hdecl, -, -, hended⟩ := progress unended
  have hne : unended ≠ [] := by decide
  have hend : ∀ t ∈ unended, t.kind ≠ .endOfInput := by decide
  exact ⟨⟨_, rfl, hdecl 0 0 _ _ rfl⟩, ⟨hne, hend⟩, hended hne hend⟩

end

end Parse

end Scriptlet
