-- SUMMARY: What is reported where the tokens of a program end too early.
import Scriptlet.Proofs.Parse.Places

/-!
# Tokens that end too early

The tokens of a program are cut in two, and the end of input is put in the place of
the second part. The parser is run on both lists. Up to the cut it does the same. There
it sees the end of input in the one list, and fails at once or only closes what it has
read; in the other list it goes on, and what it reads there gets no lower. So an
expression that is too high at the cut is too high in the program.

Two checks look behind a token for which the end of input is no answer: a parameter
without a default value is refused behind one with a default value, and an argument that
would be nested too deep is refused before it is seen to be missing.
-/
namespace Scriptlet

open Scriptlet.Action
open Grammar (operatorOver?)
open Parse (ComesTo)

/-- Where tokens are left behind the current one, it is one of the tokens that are left. -/
theorem Cursor.rest_eq_cons {c : Cursor} {t : Token} {ts : List Token} (h : c.advance.rest = ts)
    (ht : ts.head? = some t) : c.rest = c.current :: ts := by
  subst h
  rw [advance] at ht ⊢
  cases hrest : c.rest with
  | nil =>
    rw [hrest] at ht
    cases ht
  | cons t' rest =>
    rw [current, hrest]
    rfl

/-- A list of tokens in two parts, and an end of input for the place of the second one. -/
structure Cut where
  before : List Token
  after : List Token
  eof : Token
  isEnd : eof.kind = .endOfInput

namespace Cut

/-- All of the tokens. -/
def whole (k : Cut) : List Token := k.before ++ k.after

/-- The tokens before the cut, and the end of input. -/
def short (k : Cut) : List Token := k.before ++ [k.eof]

/-- The cut stands between the parentheses of a call that has no arguments, and as many primary
expressions are open there as may be open. -/
def InDeepCall (k : Cut) : Prop :=
  ∃ (c : Cursor) (name paren close : Token) (x : String),
    ComesTo k.whole .call c ∧ c.depth = maxNesting ∧ c.rest = name :: paren :: k.after ∧
      name.name? = some x ∧ paren.kind = .openParen ∧ k.after.head? = some close ∧
        close.kind = .closeParen

/-- The cut stands between the parameter `x` of the function `f`, which is the token `t`, and its
default value, and a parameter before it has a default value. -/
def HidesDefault (k : Cut) (f x : String) (t : Token) : Prop :=
  ∃ (c : Cursor) (ps : Parse.Params) (equals : Token),
    ComesTo k.whole (.param f ps) c ∧ ps.optional ≠ [] ∧ c.rest = t :: k.after ∧
      t.name? = some x ∧ k.after.head? = some equals ∧ equals.kind = .equals

/-- What may be reported where the tokens of a program are cut short. -/
inductive Fault (k : Cut) : ParseError → Prop
  | unexpectedEnd (expected : Expected) : Fault k (.unexpectedEnd expected k.eof.start)
  /-- The arguments of the call could not be nested, but it has none. -/
  | nestingTooDeep (h : k.InDeepCall) : Fault k (.nestingTooDeep k.eof.start)
  /-- The default value of the parameter is cut off. -/
  | requiredAfterOptional {f x : String} {t : Token} (h : k.HidesDefault f x t) :
      Fault k (.requiredAfterOptional f x t.start)

variable {k : Cut} {c c' : Cursor}

/-! ## Cursors before the cut and at it -/

/-- The cursor stands at the end of input that was put in. -/
def AtEnd (k : Cut) (c : Cursor) : Prop := c.rest = [k.eof]

/-- Both cursors have the same tokens before the cut in front of them. -/
structure InSync (k : Cut) (c c' : Cursor) : Prop where
  tokens : ∃ seen, seen <:+ k.before ∧ c.rest = seen ++ [k.eof] ∧ c'.rest = seen ++ k.after
  final : c'.final = k.whole.getLast?.getD (Token.atEnd 0)
  depth : c'.depth = c.depth
  height : c.height ≤ c'.height

/-- The cursors are in sync and have not come to the cut. -/
def Before (k : Cut) (c c' : Cursor) : Prop := k.InSync c c' ∧ ¬ k.AtEnd c

/-- The first cursor stands at the cut, and the second one there or further on. -/
structure Ended (k : Cut) (c c' : Cursor) : Prop where
  atEnd : k.AtEnd c
  depth : c'.depth = c.depth
  height : c.height ≤ c'.height

/-- The cursors are in sync, or the first one has come to the cut. -/
def Reached (k : Cut) (c c' : Cursor) : Prop := k.InSync c c' ∨ k.Ended c c'

theorem AtEnd.current (h : k.AtEnd c) : c.current = k.eof := by
  rw [Cursor.current, h]
  rfl

theorem AtEnd.kind_current (h : k.AtEnd c) : c.current.kind = .endOfInput := by
  rw [h.current, k.isEnd]

theorem AtEnd.unexpected (h : k.AtEnd c) (expected : Expected) :
    c.unexpected expected = .unexpectedEnd expected k.eof.start := by
  rw [Cursor.unexpected, if_pos h.kind_current, h.current]

namespace InSync

theorem ended (h : k.InSync c c') (hend : k.AtEnd c) : k.Ended c c' :=
  ⟨hend, h.depth, h.height⟩

theorem withHeight (h : k.InSync c c') {below below' : Nat} (hle : below ≤ below') :
    k.InSync { c with height := below } { c' with height := below' } :=
  ⟨h.tokens, h.final, h.depth, hle⟩

/-- At the cut the second cursor stands before what was cut off. -/
theorem rest_eq (h : k.InSync c c') (hend : k.AtEnd c) : c'.rest = k.after := by
  obtain ⟨seen, -, hrest, hrest'⟩ := h.tokens
  obtain rfl : seen = [] := by simpa using hrest.symm.trans hend
  exact hrest'

/-- Before the cut both cursors see the same token, and stay in sync behind it. -/
theorem step (h : k.InSync c c') (hend : ¬ k.AtEnd c) :
    c'.current = c.current ∧ k.InSync c.advance c'.advance ∧
      (k.AtEnd c.advance → k.before.getLast? = some c.current) := by
  obtain ⟨seen, hsuffix, hrest, hrest'⟩ := h.tokens
  cases seen with
  | nil => exact absurd hrest hend
  | cons t seen =>
    have hcurrent : c.current = t := by rw [Cursor.current, hrest]; rfl
    have hcurrent' : c'.current = t := by rw [Cursor.current, hrest']; rfl
    refine ⟨hcurrent'.trans hcurrent.symm, ⟨⟨seen, ?_, ?_, ?_⟩, h.final, h.depth, h.height⟩,
      fun hadvance => ?_⟩
    · exact (List.suffix_cons t seen).trans hsuffix
    · rw [Cursor.advance, hrest]
      rfl
    · rw [Cursor.advance, hrest']
      rfl
    · rw [AtEnd, Cursor.advance, hrest] at hadvance
      obtain rfl : seen = [] := by simpa using hadvance
      obtain ⟨done, hdone⟩ := hsuffix
      rw [← hdone, List.getLast?_concat, hcurrent]

/-- The second cursor sees a token behind the cut, if it is of another kind than the last one
before the cut. -/
theorem head?_after (h : k.InSync c c') (hend : k.AtEnd c) {t : Token}
    (ht : k.before.getLast? = some t) (hne : c'.current.kind ≠ t.kind) :
    k.after.head? = some c'.current := by
  have hrest := h.rest_eq hend
  cases hafter : k.after with
  | nil =>
    refine absurd (congrArg Token.kind ?_) hne
    rw [Cursor.current, hrest, hafter, h.final, whole, hafter, List.append_nil, ht]
    rfl
  | cons t' more =>
    rw [Cursor.current, hrest, hafter]
    rfl

end InSync

namespace Reached

theorem depth (h : k.Reached c c') : c'.depth = c.depth := h.elim (·.depth) (·.depth)

theorem height (h : k.Reached c c') : c.height ≤ c'.height := h.elim (·.height) (·.height)

theorem before_or_ended (h : k.Reached c c') : k.Before c c' ∨ k.Ended c c' := by
  by_cases hend : k.AtEnd c
  · exact .inr (h.elim (·.ended hend) id)
  · exact .inl ⟨h.resolve_right fun h => hend h.atEnd, hend⟩

theorem withHeight (h : k.Reached c c') {below below' : Nat} (hle : below ≤ below') :
    k.Reached { c with height := below } { c' with height := below' } :=
  h.imp (·.withHeight hle) fun h => ⟨h.atEnd, h.depth, hle⟩

end Reached

end Cut

namespace Parse

open Cut (AtEnd InSync Ended Reached)

variable {α β γ δ : Type} {k : Cut} {x : Parse α} {y : Parse β} {c' : Cursor}

/-! ## Readers that can do nothing at the cut -/

/-- At the end of input the reader fails, with a fault as `F` says. -/
def FailsWith (k : Cut) (F : Cursor → ParseError → Prop) (x : Parse α) : Prop :=
  ∀ c, k.AtEnd c → ∃ e c', x.runOn c = (.error e, c') ∧ k.AtEnd c' ∧ F c e

/-- At the end of input the reader expects something else. -/
abbrev Stuck (k : Cut) (x : Parse α) : Prop :=
  FailsWith k (fun _ e => ∃ expected, e = .unexpectedEnd expected k.eof.start) x

theorem FailsWith.bind {F : Cursor → ParseError → Prop} {f : α → Parse β} (hx : FailsWith k F x) :
    FailsWith k F (x >>= f) := by
  intro c hc
  obtain ⟨e, c', hrun, hend, he⟩ := hx c hc
  exact ⟨e, c', runOn_bind_error hrun, hend, he⟩

theorem stuck_unexpected (expected : Expected) : Stuck k (unexpected expected : Parse α) :=
  fun c hc => ⟨_, c, runOn_unexpected expected c, hc, expected, hc.unexpected expected⟩

theorem stuck_current {f : Token → Parse α} (h : ∀ t, t.kind = .endOfInput → Stuck k (f t)) :
    Stuck k (current >>= f) := fun c hc => h c.current hc.kind_current c hc

theorem stuck_ifEat {kind : Token.Kind} (hkind : kind ≠ .endOfInput) {x₁ x₂ : Parse α}
    (h : Stuck k x₂) : Stuck k (do if ← eat kind then x₁ else x₂) := by
  intro c hc
  rw [runOn_ifEat, if_neg (hc.kind_current ▸ hkind.symm)]
  exact h c hc

theorem stuck_expect {kind : Token.Kind} (hkind : kind ≠ .endOfInput) :
    Stuck k (expect kind) := by
  intro c hc
  rw [runOn_expect, if_neg (hc.kind_current ▸ hkind.symm)]
  exact ⟨_, c, rfl, hc, .kind kind, hc.unexpected _⟩

theorem stuck_ident : Stuck k ident := by
  intro c hc
  have hname : c.current.name? = none := by
    rw [Token.name?, hc.kind_current]
    rfl
  rw [runOn_ident, hname]
  exact ⟨_, c, rfl, hc, .kind .identifier, hc.unexpected _⟩

/-! ## Readers on both sides of the cut -/

/-- A reader has returned as `Q` says, or at the cut it reports what may be reported there. -/
def CutOutcome (k : Cut) (Q : α → Cursor → Prop) : Except ParseError α × Cursor → Prop
  | (.ok a, c) => Q a c
  | (.error e, c) => k.AtEnd c ∧ k.Fault e

theorem FailsWith.outcome {F : Cursor → ParseError → Prop} {Q : α → Cursor → Prop} {c : Cursor}
    (hx : FailsWith k F x) (hF : ∀ e, F c e → k.Fault e) (hc : k.AtEnd c) :
    CutOutcome k Q (x.runOn c) := by
  obtain ⟨e, c', hrun, hend, he⟩ := hx c hc
  rw [hrun]
  exact ⟨hend, hF e he⟩

/-- From a cursor that stands to the second one, `c'`, as `P` says: where the second reader returns,
the first one returns with values and cursors as `Q` says, or it reports what may be reported at
the cut. -/
def Follows (k : Cut) (P : Cursor → Cursor → Prop) (c' : Cursor) (x : Parse α) (y : Parse β)
    (Q : α → β → Cursor → Cursor → Prop) : Prop :=
  ∀ c, P c c' → ∀ b c₁', y.runOn c' = (.ok b, c₁') →
    CutOutcome k (fun a c₁ => Q a b c₁ c₁') (x.runOn c)

namespace Follows

variable {P P' : Cursor → Cursor → Prop} {Q : α → β → Cursor → Cursor → Prop}
  {R : γ → δ → Cursor → Cursor → Prop}

/-- The second reader has returned where what is read behind it begins. -/
theorem bind {f : α → Parse γ} {g : β → Parse δ} (hx : Follows k P c' x y Q)
    (hf : ∀ a b c₁', y.runOn c' = (.ok b, c₁') → Follows k (Q a b) c₁' (f a) (g b) R) :
    Follows k P c' (x >>= f) (y >>= g) R := by
  intro c hc d c₂' hrun
  obtain ⟨b, c₁', hy, hg⟩ := runOn_bind_eq_ok.mp hrun
  have hout := hx c hc b c₁' hy
  rcases h : x.runOn c with ⟨e | a, c₁⟩ <;> rw [h] at hout
  · rw [runOn_bind_error h]
    exact hout
  · rw [runOn_bind_ok h]
    exact hf a b c₁' hy c₁ hout d c₂' hg

theorem strengthen (h : Follows k P c' x y Q) (hP : ∀ c, P' c c' → P c c') :
    Follows k P' c' x y Q := fun c hc => h c (hP c hc)

theorem before (h : Follows k k.InSync c' x y Q) : Follows k k.Before c' x y Q :=
  h.strengthen fun _ => And.left

theorem or (h : Follows k P c' x y Q) (h' : Follows k P' c' x y Q) :
    Follows k (fun c c' => P c c' ∨ P' c c') c' x y Q :=
  fun c hc => hc.elim (h c) (h' c)

theorem of_stuck (h : Stuck k x) (hP : ∀ c, P c c' → k.AtEnd c) : Follows k P c' x y Q := by
  intro c hc b c₁' _
  refine h.outcome ?_ (hP c hc)
  rintro _ ⟨expected, rfl⟩
  exact .unexpectedEnd expected

/-- What is done before the cut and what is done at it. -/
theorem before_or_ended (h : Follows k k.Before c' x y Q) (hend : Follows k k.Ended c' x y Q) :
    Follows k k.Reached c' x y Q :=
  (h.or hend).strengthen fun _ hc => hc.before_or_ended

/-- Where the first reader is stuck at the cut, only what it does before the cut matters. -/
theorem of_before (hstuck : Stuck k x) (h : Follows k k.Before c' x y Q) :
    Follows k k.InSync c' x y Q :=
  (h.before_or_ended (of_stuck hstuck fun _ hc => hc.atEnd)).strengthen fun _ => .inl

/-- A reader that is stuck behind a part that has come to the cut. -/
theorem of_reached (hstuck : Stuck k x) (h : Follows k k.InSync c' x y Q) :
    Follows k k.Reached c' x y Q :=
  h.or (of_stuck hstuck fun _ hc => hc.atEnd)

/-! ### Steps -/

theorem pure {a : α} {b : β} (h : ∀ c, P c c' → Q a b c c') :
    Follows k P c' (pure a) (pure b) Q := by
  intro c hc _ _ hrun
  cases hrun
  exact h c hc

theorem map (h : Follows k P c' x y Q) {g : α → γ} {g' : β → δ}
    (hQ : ∀ a b c c', Q a b c c' → R (g a) (g' b) c c') :
    Follows k P c' (g <$> x) (g' <$> y) R := by
  rw [map_eq_pure_bind, map_eq_pure_bind]
  exact h.bind fun a b c₁' _ => pure fun c => hQ a b c c₁'

/-- Where the second reader does not return, nothing is asked for. -/
theorem of_unexpected (expected : Expected) :
    Follows k P c' x (unexpected expected : Parse β) Q := by
  intro c _ b c₁' hrun
  cases hrun

theorem of_throw (e : ParseError) : Follows k P c' x (throw e : Parse β) Q := by
  intro c _ b c₁' hrun
  cases hrun

theorem current {f : Token → Parse α} {g : Token → Parse β}
    (h : Follows k k.Before c' (f c'.current) (g c'.current) Q) :
    Follows k k.Before c' (current >>= f) (current >>= g) Q := by
  intro c hc b c₁' hrun
  obtain ⟨hcurrent, -⟩ := hc.1.step hc.2
  rw [runOn_bind_ok (runOn_current c'), hcurrent] at hrun
  rw [runOn_bind_ok (runOn_current c)]
  rw [hcurrent] at h
  exact h c hc b c₁' hrun

theorem operator? (least : Nat) {f : Option BinaryOp → Parse α} {g : Option BinaryOp → Parse β}
    (h : ∀ op, operatorOver? least c'.current.kind = op → Follows k k.Before c' (f op) (g op) Q) :
    Follows k k.Before c' (operator? least >>= f) (operator? least >>= g) Q := by
  intro c hc b c₁' hrun
  obtain ⟨hcurrent, -⟩ := hc.1.step hc.2
  rw [runOn_bind_ok (runOn_operator? least c')] at hrun
  rw [runOn_bind_ok (runOn_operator? least c), ← hcurrent]
  exact h _ rfl c hc b c₁' hrun

theorem advance {f : Unit → Parse α} {g : Unit → Parse β}
    (h : Follows k k.InSync c'.advance (f ()) (g ()) Q) :
    Follows k k.Before c' (advance >>= f) (advance >>= g) Q := by
  intro c hc b c₁' hrun
  obtain ⟨-, hadvance, -⟩ := hc.1.step hc.2
  exact h c.advance hadvance b c₁' hrun

/-- Where the first cursor has come to the cut, it goes on behind a token that only the second one
consumes. -/
theorem ifEatOr {kind : Token.Kind} (hkind : kind ≠ .endOfInput) {x₁ x₂ : Parse α}
    {y₁ y₂ : Parse β} (hP : ∀ c, P c c' → k.InSync c c')
    (h₁ : c'.current.kind = kind → Follows k k.InSync c'.advance x₁ y₁ Q)
    (hcut : c'.current.kind = kind → ∀ c, P c c' → k.AtEnd c → ∀ b c₁',
      y₁.runOn c'.advance = (.ok b, c₁') → CutOutcome k (fun a c₁ => Q a b c₁ c₁') (x₂.runOn c))
    (h₂ : c'.current.kind ≠ kind → Follows k P c' x₂ y₂ Q) :
    Follows k P c' (do if ← eat kind then x₁ else x₂) (do if ← eat kind then y₁ else y₂) Q := by
  intro c hc b c₁' hrun
  rw [runOn_ifEat] at hrun ⊢
  by_cases hend : k.AtEnd c
  · rw [if_neg (hend.kind_current ▸ hkind.symm)]
    split at hrun
    · exact hcut ‹_› c hc hend b c₁' hrun
    · exact h₂ ‹_› c hc b c₁' hrun
  · obtain ⟨hcurrent, hadvance, -⟩ := (hP c hc).step hend
    rw [← hcurrent]
    by_cases hk : c'.current.kind = kind
    · rw [if_pos hk] at hrun ⊢
      exact h₁ hk _ hadvance b c₁' hrun
    · rw [if_neg hk] at hrun ⊢
      exact h₂ hk c hc b c₁' hrun

theorem ifEat {kind : Token.Kind} (hkind : kind ≠ .endOfInput) {x₁ x₂ : Parse α}
    {y₁ y₂ : Parse β} (h₁ : c'.current.kind = kind → Follows k k.InSync c'.advance x₁ y₁ Q)
    (hstuck : Stuck k x₂) (h₂ : c'.current.kind ≠ kind → Follows k k.InSync c' x₂ y₂ Q) :
    Follows k k.InSync c' (do if ← eat kind then x₁ else x₂) (do if ← eat kind then y₁ else y₂) Q :=
  ifEatOr hkind (fun _ => id) h₁
    (fun _ c _ hend => of_stuck (P := fun c _ => k.AtEnd c) hstuck (fun _ => id) c hend) h₂

/-- Where the cut is right behind the token, that is the last one before it. -/
theorem expectLast {kind : Token.Kind} (hkind : kind ≠ .endOfInput) {f : Unit → Parse α}
    {g : Unit → Parse β} (h : c'.current.kind = kind → Follows k (fun c c₁' => k.InSync c c₁' ∧
      (k.AtEnd c → k.before.getLast? = some c'.current)) c'.advance (f ()) (g ()) Q) :
    Follows k k.InSync c' (expect kind >>= f) (expect kind >>= g) Q := by
  refine of_before (stuck_expect hkind).bind fun c hc b c₁' hrun => ?_
  obtain ⟨hcurrent, hadvance, hlast⟩ := hc.1.step hc.2
  rw [runOn_bind, runOn_expect] at hrun
  rw [runOn_bind, runOn_expect, ← hcurrent]
  by_cases hk : c'.current.kind = kind
  · rw [if_pos hk] at hrun ⊢
    exact h hk c.advance ⟨hadvance, hcurrent ▸ hlast⟩ b c₁' hrun
  · rw [if_neg hk] at hrun
    cases hrun

theorem expect {kind : Token.Kind} (hkind : kind ≠ .endOfInput) {f : Unit → Parse α}
    {g : Unit → Parse β}
    (h : c'.current.kind = kind → Follows k k.InSync c'.advance (f ()) (g ()) Q) :
    Follows k k.InSync c' (expect kind >>= f) (expect kind >>= g) Q :=
  expectLast hkind fun hk => (h hk).strengthen fun _ hc => hc.1

/-- Both readers have read the same name. If the cut is right behind it, it was read last. -/
theorem identLast {f : String → Parse α} {g : String → Parse β}
    (h : ∀ x, c'.current.name? = some x → Follows k (fun c c₁' => k.InSync c c₁' ∧
      (k.AtEnd c → k.before.getLast? = some c'.current)) c'.advance (f x) (g x) Q) :
    Follows k k.InSync c' (ident >>= f) (ident >>= g) Q := by
  refine of_before stuck_ident.bind fun c hc b c₁' hrun => ?_
  obtain ⟨hcurrent, hadvance, hlast⟩ := hc.1.step hc.2
  rw [runOn_bind, runOn_ident] at hrun
  rw [runOn_bind, runOn_ident, ← hcurrent]
  cases hx : c'.current.name? with
  | none =>
    rw [hx] at hrun
    cases hrun
  | some x =>
    rw [hx] at hrun
    exact h x hx c.advance ⟨hadvance, hcurrent ▸ hlast⟩ b c₁' hrun

/-- A name, and the token that it is. -/
theorem currentIdent {f : Token → String → Parse α} {g : Token → String → Parse β}
    (h : ∀ x, c'.current.name? = some x → Follows k (fun c c₁' => k.InSync c c₁' ∧
      (k.AtEnd c → k.before.getLast? = some c'.current)) c'.advance (f c'.current x)
        (g c'.current x) Q) :
    Follows k k.InSync c' (Parse.current >>= fun t => ident >>= f t)
      (Parse.current >>= fun t => ident >>= g t) Q :=
  of_before (stuck_current fun _ _ => stuck_ident.bind)
    (current ((identLast h).strengthen fun _ => And.left))

theorem ident {f : String → Parse α} {g : String → Parse β}
    (h : ∀ x, c'.current.name? = some x → Follows k k.InSync c'.advance (f x) (g x) Q) :
    Follows k k.InSync c' (ident >>= f) (ident >>= g) Q :=
  identLast fun x hx => (h x hx).strengthen fun _ => And.left

/-! ### Heights and nesting -/

/-- No height that was recorded is greater before the cut. -/
theorem getHeight {f : Cursor → Parse α} {g : Cursor → Parse β}
    (hP : ∀ c, P c c' → c.height ≤ c'.height)
    (h : ∀ c : Cursor, c.height ≤ c'.height → Follows k P c' (f c) (g c') Q) :
    Follows k P c' (get >>= f) (get >>= g) Q :=
  fun c hc => h c (hP c hc) c hc

theorem grow {below below' : Nat} (hle : below ≤ below') {offset offset' : Nat}
    {f : Unit → Parse α} {g : Unit → Parse β}
    (h : below' < maxNesting →
      Follows k k.Reached { c' with height := below' + 1 } (f ()) (g ()) Q) :
    Follows k k.Reached c' (grow below offset >>= f) (grow below' offset' >>= g) Q := by
  intro c hc b c₁' hrun
  obtain ⟨hlt, hrun⟩ := runOn_grow_bind_eq_ok.mp hrun
  rw [runOn_bind, runOn_grow, if_neg (Nat.not_le_of_lt (Nat.lt_of_le_of_lt hle hlt))]
  exact h hlt _ (hc.withHeight (Nat.succ_le_succ hle)) b c₁' hrun

theorem nested (h : c'.depth < maxNesting →
      Follows k k.InSync { c' with depth := c'.depth + 1 } x y fun _ _ => k.Reached) :
    Follows k k.InSync c' (nested x) (nested y) fun _ _ => k.Reached := by
  intro c hc b c₁' hrun
  obtain ⟨hdepth, c₁', hy, rfl⟩ := runOn_nested_eq_ok.mp hrun
  have hopen : k.InSync { c with depth := c.depth + 1 } { c' with depth := c'.depth + 1 } :=
    ⟨hc.tokens, hc.final, congrArg (· + 1) hc.depth, hc.height⟩
  have hout := h hdepth _ hopen b c₁' hy
  rw [hc.depth] at hdepth
  rw [runOn_nested, if_neg (Nat.not_le_of_lt hdepth)]
  generalize x.runOn { c with depth := c.depth + 1 } = r at hout ⊢
  rcases r with ⟨e | a, c₁⟩
  · exact hout
  · exact hout.imp (fun h => ⟨h.tokens, h.final, congrArg (· - 1) h.depth, h.height⟩)
      fun h => ⟨h.atEnd, congrArg (· - 1) h.depth, h.height⟩

/-- A reader that is chosen by what stands behind a name. Where only the second reader sees a
parenthesis there, the name is the last token before the cut. -/
theorem behindName {x₁ x₂ : Parse α} {y₁ y₂ : Parse β}
    (h₁ : c'.next.kind = .openParen → Follows k k.Before c' x₁ y₁ Q)
    (h₂ : c'.next.kind ≠ .openParen → Follows k k.Before c' x₂ y₂ Q)
    (hcut : Follows k (fun c c' => k.Before c c' ∧ k.AtEnd c.advance) c' x₂ y₁ Q) :
    Follows k k.Before c' (get >>= fun c => if c.next.kind = .openParen then x₁ else x₂)
      (get >>= fun c => if c.next.kind = .openParen then y₁ else y₂) Q := by
  intro c hc b c₁' hrun
  obtain ⟨-, hadvance, -⟩ := hc.1.step hc.2
  rw [runOn_ifNext] at hrun ⊢
  by_cases hlast : k.AtEnd c.advance
  · have hnext : c.next.kind = .endOfInput := hlast.kind_current
    rw [if_neg (by rw [hnext]; nofun)]
    split at hrun
    · exact hcut c ⟨hc, hlast⟩ b c₁' hrun
    · exact h₂ ‹_› c hc b c₁' hrun
  · obtain ⟨hnext, -⟩ := hadvance.step hlast
    have hnext : c'.next.kind = c.next.kind := congrArg Token.kind hnext
    rw [← hnext]
    by_cases hk : c'.next.kind = .openParen
    · rw [if_pos hk] at hrun ⊢
      exact h₁ hk c hc b c₁' hrun
    · rw [if_neg hk] at hrun ⊢
      exact h₂ hk c hc b c₁' hrun

end Follows

end Parse

end Scriptlet
