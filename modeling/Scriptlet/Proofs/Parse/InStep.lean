-- SUMMARY: Readers whose cursors see the same tokens do the same, as long as they stay where both see the same.
import Scriptlet.Proofs.Parse.Moves
import Scriptlet.Proofs.Token.Lines

/-!
# Readers in step

A reader looks at no token before those in front of it are read, save for the one
behind a name. So what it does is settled by the tokens that it reads and the one
where it stops. Two lists of tokens are read here that agree up to some place, or
all the way; in the second list all tokens stand a number of bytes further on.
-/
namespace Scriptlet

open Scriptlet.Action
open Grammar (operatorOver?)

/-! ## Shifted faults and tokens -/

/-- The fault, if `n` more bytes stood before the text. -/
def ParseError.shift (n : Nat) : ParseError → ParseError
  | .unexpectedToken expected found offset => .unexpectedToken expected found (offset + n)
  | .unexpectedEnd expected offset => .unexpectedEnd expected (offset + n)
  | .duplicateParam function param offset => .duplicateParam function param (offset + n)
  | .requiredAfterOptional function param offset =>
    .requiredAfterOptional function param (offset + n)
  | .numberOutOfRange text offset => .numberOutOfRange text (offset + n)
  | .nestingTooDeep offset => .nestingTooDeep (offset + n)

theorem ParseError.shift_zero (e : ParseError) : e.shift 0 = e := by
  cases e <;> rfl

theorem Token.shift_zero (t : Token) : t.shift 0 = t := rfl

theorem Token.map_shift_zero (ts : List Token) : ts.map (Token.shift 0) = ts :=
  (List.map_congr_left fun t _ => shift_zero t).trans (List.map_id ts)

/-! ## Cursors that see the same -/

namespace Cursor

/-- The second cursor sees the tokens that the first sees, `n` bytes further on: all of them, or
at least one. Behind those each cursor has one of the two lists. -/
inductive SeesSame (n : Nat) : Option (List Token × List Token) → Cursor → Cursor → Prop
  | all {c c' : Cursor} (hrest : c'.rest = c.rest.map (Token.shift n))
      (hfinal : c'.final = c.final.shift n) : SeesSame n none c c'
  | before {seen after after' : List Token} {c c' : Cursor} (hseen : seen ≠ [])
      (hrest : c.rest = seen ++ after) (hrest' : c'.rest = seen.map (Token.shift n) ++ after') :
      SeesSame n (some (after, after')) c c'

/-- The cursor stands before a token that is seen from both. -/
def Within : Option (List Token × List Token) → Cursor → Prop
  | none, _ => True
  | some (after, _), c => after.length < c.rest.length

/-- What is known of two cursors that see the same: how many tokens are left of those, at most, and
whether the same height was recorded last. -/
structure Known where
  left : Nat
  height : Bool

/-- Two cursors that see the same tokens. -/
structure Alike (n : Nat) (after : Option (List Token × List Token)) (k : Known)
    (c c' : Cursor) : Prop where
  tokens : SeesSame n after c c'
  depth : c'.depth = c.depth
  left : ∀ l ∈ after, c.rest.length ≤ l.1.length + k.left
  height : k.height → c'.height = c.height

variable {n : Nat} {after : Option (List Token × List Token)} {k k' : Known} {c c₁ c' : Cursor}

theorem SeesSame.of_eq {d d' : Cursor} (h : SeesSame n after c c') (hrest : d.rest = c.rest)
    (hrest' : d'.rest = c'.rest) (hfinal : d.final = c.final) (hfinal' : d'.final = c'.final) :
    SeesSame n after d d' := by
  cases h with
  | all h hf => exact .all (by rw [hrest', h, hrest]) (by rw [hfinal', hf, hfinal])
  | before hseen h h' => exact .before hseen (hrest.trans h) (hrest'.trans h')

theorem Onward.within (h : c.Onward c₁) (hw : c₁.Within after) : c.Within after := by
  cases after with
  | none => trivial
  | some after => exact Nat.lt_of_lt_of_le hw h.rest.length_le

namespace Alike

theorem current (h : Alike n after k c c') : c'.current = c.current.shift n := by
  rcases h.tokens with ⟨hrest, hfinal⟩ | ⟨hseen, hrest, hrest'⟩
  · rw [Cursor.current, Cursor.current, hrest, hfinal]
    cases c.rest <;> rfl
  · obtain ⟨t, seen, rfl⟩ := List.exists_cons_of_ne_nil hseen
    rw [Cursor.current, Cursor.current, hrest, hrest']
    rfl

theorem kind_current (h : Alike n after k c c') : c'.current.kind = c.current.kind := by
  rw [h.current]
  rfl

theorem advance (h : Alike n after k c c') (hw : c.advance.Within after) :
    Alike n after { k with left := k.left - 1 } c.advance c'.advance := by
  refine ⟨?_, h.depth, fun l hl => ?_, h.height⟩
  · rcases h.tokens with ⟨hrest, hfinal⟩ | ⟨hseen, hrest, hrest'⟩
    · refine .all ?_ hfinal
      rw [Cursor.advance, Cursor.advance, hrest, List.map_tail]
    · obtain ⟨t, seen, rfl⟩ := List.exists_cons_of_ne_nil hseen
      have hseen : seen ≠ [] := by
        rintro rfl
        rw [Within, Cursor.advance, hrest] at hw
        exact absurd hw (Nat.lt_irrefl _)
      exact .before hseen (congrArg List.tail hrest) (congrArg List.tail hrest')
  · have hleft := h.left l hl
    simp only [Cursor.advance, List.length_tail]
    omega

/-- What stands behind the current token is the same if it can still be read. -/
theorem kind_next (h : Alike n after k c c') (hw : c.advance.Within after) :
    c'.next.kind = c.next.kind :=
  (h.advance hw).kind_current

theorem mono (h : Alike n after k c c') (hleft : k.left ≤ k'.left)
    (hheight : k'.height → k.height) : Alike n after k' c c' :=
  ⟨h.tokens, h.depth, fun l hl => Nat.le_trans (h.left l hl) (Nat.add_le_add_left hleft _),
    fun hk => h.height (hheight hk)⟩

theorem withHeight (h : Alike n after k c c') (height : Nat) (b : Bool) :
    Alike n after { k with height := b } { c with height } { c' with height } :=
  ⟨h.tokens.of_eq rfl rfl rfl rfl, h.depth, h.left, fun _ => rfl⟩

theorem withDepth (h : Alike n after k c c') (f : Nat → Nat) :
    Alike n after k { c with depth := f c.depth } { c' with depth := f c'.depth } :=
  ⟨h.tokens.of_eq rfl rfl rfl rfl, congrArg f h.depth, h.left, h.height⟩

theorem unexpected (h : Alike n after k c c') (expected : Expected) :
    c'.unexpected expected = (c.unexpected expected).shift n := by
  rw [Cursor.unexpected, Cursor.unexpected, h.current]
  change (if c.current.kind = _ then _ else _) = _
  split <;> rfl

end Alike

/-- Lists of tokens that begin with the same ones, and may go on with others. -/
theorem alike_ofTokens {seen : List Token} (hseen : seen ≠ []) (after after' : List Token) :
    Alike 0 (some (after, after')) ⟨seen.length, false⟩ (ofTokens (seen ++ after))
      (ofTokens (seen ++ after')) := by
  have hrest : (ofTokens (seen ++ after')).rest = seen.map (Token.shift 0) ++ after' := by
    rw [Token.map_shift_zero]
    rfl
  refine ⟨.before hseen rfl hrest, rfl, ?_, nofun⟩
  rintro _ ⟨⟩
  simp [ofTokens, atIndex, Nat.add_comm]

end Cursor

namespace Parse

open Cursor (Known Alike Within)

variable {α β : Type} {n : Nat} {after : Option (List Token × List Token)} {i j k : Known}
  {x y : Parse α}

/-! ## Readers in step -/

/-- What two readers did is the same, up to where the tokens stand. -/
inductive Same (n : Nat) (after : Option (List Token × List Token)) (k : Known) :
    Except ParseError α × Cursor → Except ParseError α × Cursor → Prop
  | ok {a : α} {c c' : Cursor} (h : Alike n after k c c') : Same n after k (.ok a, c) (.ok a, c')
  | error {e : ParseError} {c c' : Cursor} {l : Known} (h : Alike n after l c c') :
      Same n after k (.error e, c) (.error (e.shift n), c')

/-- Where cursors are alike as `i` says, the second reader does the same as the first, if that stays
within what both see; then the cursors are alike as `j` says. -/
structure InStep (n : Nat) (after : Option (List Token × List Token)) (i j : Known)
    (x y : Parse α) : Prop where
  moves : Moves x
  same (c c' : Cursor) : Alike n after i c c' → Within after (x.runOn c).2 →
    Same n after j (x.runOn c) (y.runOn c')

namespace InStep

theorem bind {f g : α → Parse β} (hx : InStep n after i j x y)
    (hf : ∀ a, InStep n after j k (f a) (g a)) : InStep n after i k (x >>= f) (y >>= g) := by
  refine ⟨hx.moves.bind fun a => (hf a).moves, fun c c' hc hw => ?_⟩
  have hsame := hx.same c c' hc
  generalize hy : y.runOn c' = r at hsame
  rcases hrun : x.runOn c with ⟨e | a, c₁⟩ <;> rw [hrun] at hsame
  · rw [runOn_bind_error hrun] at hw ⊢
    cases hsame hw with
    | error h =>
      rw [runOn_bind_error hy]
      exact .error h
  · rw [runOn_bind_ok hrun] at hw ⊢
    cases hsame (((hf a).moves c₁).within hw) with
    | ok h =>
      rw [runOn_bind_ok hy]
      exact (hf a).same _ _ h hw

/-- Readers that are chosen by looking at the cursors. -/
theorem of_runOn (h : ∀ c, ∃ x' y', InStep n after i j x' y' ∧ x.runOn c = x'.runOn c ∧
    ∀ c', Alike n after i c c' → y.runOn c' = y'.runOn c') : InStep n after i j x y := by
  refine ⟨fun c => ?_, fun c c' hc hw => ?_⟩
  · obtain ⟨x', y', hstep, hx, -⟩ := h c
    rw [hx]
    exact hstep.moves c
  · obtain ⟨x', y', hstep, hx, hy⟩ := h c
    rw [hx] at hw ⊢
    rw [hy c' hc]
    exact hstep.same c c' hc hw

theorem weaken {j' : Known} (h : InStep n after i j x y) (hleft : j.left ≤ j'.left)
    (hheight : j'.height → j.height) : InStep n after i j' x y := by
  refine ⟨h.moves, fun c c' hc hw => ?_⟩
  have hsame := h.same c c' hc hw
  generalize x.runOn c = r, y.runOn c' = r' at hsame
  cases hsame with
  | ok h => exact .ok (h.mono hleft hheight)
  | error h => exact .error h

theorem strengthen {i' : Known} (h : InStep n after i j x y) (hleft : i'.left ≤ i.left)
    (hheight : i.height → i'.height) : InStep n after i' j x y :=
  ⟨h.moves, fun c c' hc hw => h.same c c' (hc.mono hleft hheight) hw⟩

/-! ### Steps -/

theorem pure (a : α) : InStep n after k k (pure a) (pure a) :=
  ⟨moves_pure a, fun _ _ hc _ => .ok hc⟩

theorem throw (e : ParseError) : InStep n after i j (throw e : Parse α) (throw (e.shift n)) :=
  ⟨moves_throw e, fun _ _ hc _ => .error hc⟩

theorem unexpected (expected : Expected) :
    InStep n after i j (unexpected expected : Parse α) (unexpected expected) :=
  ⟨moves_unexpected expected, fun c c' hc _ => by
    rw [runOn_unexpected, runOn_unexpected, hc.unexpected]
    exact .error hc⟩

theorem advance : InStep n after k { k with left := k.left - 1 } advance advance :=
  ⟨moves_advance, fun _ _ hc hw => .ok (hc.advance hw)⟩

theorem map (h : InStep n after i j x y) (g : α → β) : InStep n after i j (g <$> x) (g <$> y) := by
  rw [map_eq_pure_bind, map_eq_pure_bind]
  exact h.bind fun a => pure (g a)

/-- The tokens at the two cursors differ only in where they stand. -/
theorem current {f g : Token → Parse α} (h : ∀ t, InStep n after i j (f t) (g (t.shift n))) :
    InStep n after i j (current >>= f) (current >>= g) :=
  of_runOn fun c => ⟨_, _, h c.current, rfl, fun c' hc => by
    rw [runOn_bind_ok (runOn_current c'), hc.current]⟩

theorem ifEat (kind : Token.Kind) {x₁ x₂ y₁ y₂ : Parse α}
    (h₁ : InStep n after { i with left := i.left - 1 } j x₁ y₁) (h₂ : InStep n after i j x₂ y₂) :
    InStep n after i j (do if ← eat kind then x₁ else x₂) (do if ← eat kind then y₁ else y₂) := by
  refine of_runOn fun c => ?_
  by_cases hk : c.current.kind = kind
  · refine ⟨Parse.advance >>= fun _ => x₁, Parse.advance >>= fun _ => y₁, advance.bind fun _ => h₁,
      ?_, fun c' hc => ?_⟩
    · rw [runOn_ifEat, if_pos hk]
      rfl
    · rw [runOn_ifEat, if_pos (hc.kind_current.trans hk)]
      rfl
  · refine ⟨x₂, y₂, h₂, ?_, fun c' hc => ?_⟩
    · rw [runOn_ifEat, if_neg hk]
    · rw [runOn_ifEat, if_neg (hc.kind_current ▸ hk)]

theorem expect (kind : Token.Kind) :
    InStep n after k { k with left := k.left - 1 } (expect kind) (expect kind) := by
  refine of_runOn fun c => ?_
  by_cases hk : c.current.kind = kind
  · refine ⟨_, _, advance, ?_, fun c' hc => ?_⟩
    · rw [runOn_expect, if_pos hk, runOn_advance]
    · rw [runOn_expect, if_pos (hc.kind_current.trans hk), runOn_advance]
  · refine ⟨_, _, unexpected (.kind kind), ?_, fun c' hc => ?_⟩
    · rw [runOn_expect, if_neg hk, runOn_unexpected]
    · rw [runOn_expect, if_neg (hc.kind_current ▸ hk), runOn_unexpected]

theorem ident : InStep n after k { k with left := k.left - 1 } ident ident := by
  refine of_runOn fun c => ?_
  cases hx : c.current.name? with
  | some x =>
    refine ⟨_, _, advance.bind fun _ => pure x, ?_, fun c' hc => ?_⟩
    · rw [runOn_ident, hx]
      rfl
    · rw [runOn_ident, hc.current, show (c.current.shift n).name? = some x from hx]
      rfl
  | none =>
    refine ⟨_, _, unexpected (.kind .identifier), ?_, fun c' hc => ?_⟩
    · rw [runOn_ident, hx, runOn_unexpected]
    · rw [runOn_ident, hc.current, show (c.current.shift n).name? = none from hx,
        runOn_unexpected]

/-! ### Heights and nesting -/

variable {m : Nat} {b : Bool}

theorem setHeight (height : Nat) :
    InStep n after ⟨m, b⟩ ⟨m, true⟩ (modify fun c => { c with height })
      (modify fun c => { c with height }) :=
  ⟨moves_setHeight fun _ => height, fun _ _ hc _ => .ok (hc.withHeight height true)⟩

/-- The height that was recorded last may be looked at where it is known to be the same. -/
theorem getHeight {f g : Cursor → Parse α}
    (h : ∀ c c' : Cursor, c'.height = c.height → InStep n after ⟨m, true⟩ j (f c) (g c')) :
    InStep n after ⟨m, true⟩ j (get >>= f) (get >>= g) := by
  refine ⟨moves_get.bind fun c => (h c c rfl).moves, fun c c' hc hw => ?_⟩
  exact (h c c' (hc.height rfl)).same c c' hc hw

theorem grow (below offset : Nat) :
    InStep n after ⟨m, b⟩ ⟨m, true⟩ (grow below offset) (grow below (offset + n)) := by
  unfold Parse.grow
  split
  · exact throw (.nestingTooDeep offset)
  · exact setHeight (below + 1)

theorem nested (h : InStep n after ⟨m, b⟩ j x y) :
    InStep n after ⟨m, b⟩ j (nested x) (nested y) := by
  refine ⟨h.moves.nested, fun c c' hc hw => ?_⟩
  rw [runOn_nested] at hw ⊢
  rw [runOn_nested, hc.depth, hc.current]
  by_cases hdepth : maxNesting ≤ c.depth
  · rw [if_pos hdepth, if_pos hdepth]
    exact .error hc
  · rw [if_neg hdepth] at hw ⊢
    rw [if_neg hdepth]
    have hopen := hc.withDepth (· + 1)
    rw [hc.depth] at hopen
    have hsame := h.same _ _ hopen (by cases after <;> exact hw)
    generalize x.runOn { c with depth := c.depth + 1 } = r,
      y.runOn { c' with depth := c.depth + 1 } = r' at hsame ⊢
    cases hsame with
    | ok h => exact .ok (h.withDepth (· - 1))
    | error h => exact .error (h.withDepth (· - 1))

end InStep

namespace InStep

/-- A reader that is chosen by what stands behind a name. If only one of the cursors sees that, the
name is the last token that both see. Then what is chosen goes past it, or fails at once. -/
theorem behindName {x₁ x₂ y₁ y₂ : Parse α} (h₁ : InStep n after i j x₁ y₁)
    (h₂ : InStep n after i j x₂ y₂) (hx₁ : BeginsWithName x₁) (hx₂ : BeginsWithName x₂)
    (hy₁ : BeginsWithName y₁) (hy₂ : BeginsWithName y₂) :
    InStep n after i j (get >>= fun c => if c.next.kind = .openParen then x₁ else x₂)
      (get >>= fun c => if c.next.kind = .openParen then y₁ else y₂) := by
  have hbegins {z₁ z₂ : Parse α} (hz₁ : BeginsWithName z₁) (hz₂ : BeginsWithName z₂) (c : Cursor) :
      BeginsWithName (if c.next.kind = .openParen then z₁ else z₂) := by
    split
    · exact hz₁
    · exact hz₂
  refine ⟨moves_get.bind fun c => (hbegins hx₁ hx₂ c).moves, fun c c' hc hw => ?_⟩
  rw [runOn_bind_ok (runOn_get c)] at hw ⊢
  rw [runOn_bind_ok (runOn_get c')]
  cases hname : c.current.name? with
  | none =>
    have hname' : c'.current.name? = none := by rw [hc.current]; exact hname
    rw [(hbegins hx₁ hx₂ c).refuses c hname, (hbegins hy₁ hy₂ c').refuses c' hname',
      hc.unexpected]
    exact .error hc
  | some x =>
    have hadvance := ((hbegins hx₁ hx₂ c).consumes c (by rw [hname]; rfl)).within hw
    rw [hc.kind_next hadvance]
    by_cases hnext : c.next.kind = .openParen
    · simp only [if_pos hnext] at hw ⊢
      exact h₁.same c c' hc hw
    · simp only [if_neg hnext] at hw ⊢
      exact h₂.same c c' hc hw

end InStep

/-! ## Loops -/

/-- Both loops have rounds for all tokens that are seen from both cursors, or as many rounds. -/
def Rounds (left : Nat) (rs rs' : List Token) : Option (List Token × List Token) → Prop
  | none => rs.length = rs'.length
  | some _ => left ≤ rs.length ∧ left ≤ rs'.length

namespace InStep

variable {m : Nat} {b b' : Bool}

theorem rounds {f g : List Token → Parse α}
    (h : ∀ l ≤ m, ∀ rs rs', Rounds l rs rs' after → InStep n after ⟨l, b⟩ j (f rs) (g rs')) :
    InStep n after ⟨m, b⟩ j (rounds >>= f) (rounds >>= g) := by
  refine ⟨moves_rounds.bind fun rs => (h 0 (Nat.zero_le m) rs rs ?_).moves, fun c c' hc hw => ?_⟩
  · cases after with
    | none => rfl
    | some after => exact ⟨Nat.zero_le _, Nat.zero_le _⟩
  · suffices hrounds : ∃ l ≤ m, Rounds l (c.final :: c.rest) (c'.final :: c'.rest) after ∧
        Alike n after ⟨l, b⟩ c c' by
      obtain ⟨l, hl, hrounds, hc⟩ := hrounds
      exact (h l hl _ _ hrounds).same c c' hc hw
    rcases hc.tokens with ⟨hrest, -⟩ | @⟨seen, after, after', _, _, hseen, hrest, hrest'⟩
    · refine ⟨m, Nat.le_refl m, ?_, hc⟩
      rw [Rounds, List.length_cons, List.length_cons, hrest, List.length_map]
    · have hleft : c.rest.length ≤ after.length + m := hc.left (after, after') rfl
      rw [hrest, List.length_append] at hleft
      refine ⟨seen.length, by omega, ⟨?_, ?_⟩, hc.tokens, hc.depth, fun l hl => ?_, hc.height⟩
      · rw [hrest, List.length_cons, List.length_append]
        omega
      · rw [hrest', List.length_cons, List.length_append, List.length_map]
        omega
      · cases hl
        exact Nat.le_of_eq (by rw [hrest, List.length_append, Nat.add_comm])

/-- No cursors are alike that have no token left to see. -/
theorem of_left_zero {l : List Token × List Token} (hx : Moves x) :
    InStep n (some l) ⟨0, b⟩ j x y :=
  ⟨hx, fun c _ hc hw => absurd (hc.left l rfl) (Nat.not_le_of_lt ((hx c).within hw))⟩

/-- A loop that consumes a token in each round, or fails. -/
theorem loop {σ : Type} {x y : List Token → σ → Parse α} (hmoves : ∀ rs s, Moves (x rs s))
    (hnil : ∀ m s, InStep n after ⟨m, b⟩ ⟨m, b'⟩ (x [] s) (y [] s))
    (hcons : ∀ m t t' rs rs', (∀ s, InStep n after ⟨m - 1, b⟩ ⟨m - 1, b'⟩ (x rs s) (y rs' s)) →
      ∀ s, InStep n after ⟨m, b⟩ ⟨m, b'⟩ (x (t :: rs) s) (y (t' :: rs') s))
    {rs rs' : List Token} (hrounds : Rounds m rs rs' after) (s : σ) :
    InStep n after ⟨m, b⟩ ⟨m, b'⟩ (x rs s) (y rs' s) := by
  induction rs generalizing rs' m s with
  | nil =>
    cases rs' with
    | nil => exact hnil m s
    | cons t' rs' =>
      cases after with
      | none => cases hrounds
      | some after =>
        obtain rfl : m = 0 := Nat.le_zero.mp hrounds.1
        exact of_left_zero (hmoves _ _)
  | cons t rs ih =>
    cases rs' with
    | nil =>
      cases after with
      | none => cases hrounds
      | some after =>
        obtain rfl : m = 0 := Nat.le_zero.mp hrounds.2
        exact of_left_zero (hmoves _ _)
    | cons t' rs' =>
      refine hcons m t t' rs rs' (fun s => ih ?_ s) s
      cases after with
      | none => exact Nat.succ.inj hrounds
      | some after => exact ⟨Nat.sub_le_of_le_add hrounds.1, Nat.sub_le_of_le_add hrounds.2⟩

end InStep

/-! ## Expressions -/

/-- The readers of expressions keep step. They consume a token, and record the same height. -/
def ExprInStep (n : Nat) (after : Option (List Token × List Token)) (x y : Parse Expr) : Prop :=
  ∀ m b, InStep n after ⟨m, b⟩ ⟨m - 1, true⟩ x y

section
variable {expr primary : Parse Expr} {operand : Nat → Parse Expr}

theorem inStep_leaf (e : Expr) : ExprInStep n after (leaf e) (leaf e) := fun _ _ =>
  InStep.advance.bind fun _ => (InStep.setHeight 1).bind fun _ => .pure e

theorem inStep_number (read? : List Char → Option α) (make : α → Expr) :
    ExprInStep n after (number read? make) (number read? make) := by
  refine fun m b => .current fun t => ?_
  dsimp only [Token.shift]
  split
  · exact inStep_leaf _ m b
  · exact .throw (.numberOutOfRange _ _)

theorem inStep_name : ExprInStep n after name name := fun _ _ =>
  InStep.ident.bind fun _ => (InStep.setHeight 1).bind fun _ => .pure _

theorem inStep_arguments (hexpr : ExprInStep n after expr expr) {m : Nat} {rs rs' : List Token}
    (hrounds : Rounds m rs rs' after) (highest : Nat) :
    InStep n after ⟨m, false⟩ ⟨m, false⟩ (arguments expr rs highest)
      (arguments expr rs' highest) := by
  refine .loop (moves_arguments (hexpr 0 false).moves) (fun _ _ => .unexpected _) ?_ hrounds highest
  intro m t t' rs rs' ih highest
  refine (hexpr m false).bind fun e => .getHeight fun c c' hheight => ?_
  rw [hheight]
  refine .ifEat _ ?_ (.ifEat _ ?_ (.unexpected _))
  · exact (InStep.pure _).weaken (by dsimp only; omega) nofun
  · refine ((ih _).strengthen (Nat.sub_le _ _) nofun).bind fun more => ?_
    exact (InStep.pure _).weaken (Nat.sub_le _ _) id

theorem inStep_call (hexpr : ExprInStep n after expr expr) :
    ExprInStep n after (call expr) (call expr) := by
  refine fun m b => .current fun t => InStep.ident.bind fun x => (InStep.expect _).bind fun _ => ?_
  have hgrow {k : Known} (hleft : k.left ≤ m - 1) (highest : Nat) (es : List Expr) :
      InStep n after k ⟨m - 1, true⟩
        (grow highest t.start >>= fun _ => pure (Expr.call (.name x) es))
        (grow highest (t.start + n) >>= fun _ => pure (Expr.call (.name x) es)) :=
    ((InStep.grow _ _).bind fun _ => .pure _).weaken hleft id
  refine .ifEat _ ?_ (.rounds fun l hl rs rs' hrounds => ?_)
  · exact (InStep.pure _).bind fun _ => hgrow (by dsimp only; omega) _ _
  · refine .strengthen (i := ⟨l, false⟩) ?_ (Nat.le_refl l) nofun
    refine (inStep_arguments hexpr hrounds 0).bind fun r => hgrow ?_ r.2 r.1
    dsimp only at hl ⊢
    omega

theorem inStep_signed (op : UnaryOp) (hprimary : ExprInStep n after primary primary) :
    ExprInStep n after (signed op primary) (signed op primary) := by
  refine fun m b => .current fun t => InStep.advance.bind fun _ => (hprimary _ _).bind fun e =>
    .getHeight fun c c' hheight => ?_
  rw [hheight]
  exact ((InStep.grow _ _).bind fun _ => .pure _).weaken (Nat.sub_le _ _) id

/-- The operator at the cursor is the same. -/
theorem InStep.operator? (least : Nat) {f g : Option BinaryOp → Parse α}
    (h : ∀ op, InStep n after i j (f op) (g op)) :
    InStep n after i j (operator? least >>= f) (operator? least >>= g) :=
  .of_runOn fun c => ⟨_, _, h (operatorOver? least c.current.kind),
    runOn_bind_ok (runOn_operator? least c), fun c' hc => by
      rw [runOn_bind_ok (runOn_operator? least c'), hc.kind_current]⟩

theorem inStep_chain (hoperand : ∀ least, ExprInStep n after (operand least) (operand least))
    (least : Nat) {m : Nat} {rs rs' : List Token} (hrounds : Rounds m rs rs' after) (lhs : Expr) :
    InStep n after ⟨m, true⟩ ⟨m, true⟩ (chain operand least rs lhs)
      (chain operand least rs' lhs) := by
  refine .loop (moves_chain (fun least => (hoperand least 0 false).moves) least)
    (fun _ _ => .pure _) ?_ hrounds lhs
  intro m t t' rs rs' ih lhs
  refine .operator? least fun op => ?_
  cases op with
  | none => exact .pure lhs
  | some op =>
    refine .current fun t => .getHeight fun c c' hheight => InStep.advance.bind fun _ =>
      (hoperand _ _ _).bind fun rhs => .getHeight fun c₁ c₁' hheight₁ => ?_
    rw [hheight, hheight₁]
    refine (InStep.grow _ _).bind fun _ => ?_
    exact .weaken (.strengthen (ih _) (Nat.sub_le _ _) id) (Nat.sub_le _ _) id

theorem inStep_operators (hprimary : ExprInStep n after primary primary) (levels least : Nat) :
    ExprInStep n after (operators primary levels least) (operators primary levels least) := by
  induction levels generalizing least with
  | zero => exact hprimary
  | succ levels ih =>
    refine fun m b => (hprimary m b).bind fun lhs => .rounds fun l hl rs rs' hrounds => ?_
    exact (inStep_chain ih least hrounds lhs).weaken hl id

theorem inStep_parenthesized (hexpr : ExprInStep n after expr expr) :
    ExprInStep n after (parenthesized expr) (parenthesized expr) := fun m b =>
  InStep.advance.bind fun _ => (hexpr _ _).bind fun e => (InStep.expect _).bind fun _ =>
    (InStep.pure e).weaken (by dsimp only; omega) id

theorem runOn_ifNext (x y : Parse α) (c : Cursor) :
    (get >>= fun c : Cursor => if c.next.kind = .openParen then x else y : Parse α).runOn c =
      if c.next.kind = .openParen then x.runOn c else y.runOn c := by
  rw [runOn_bind_ok (runOn_get c)]
  split <;> rfl

/-- The kind of the current token decides what is read. -/
theorem atom_eq (primary : Parse Expr) :
    atom primary = current >>= fun t =>
      match t.kind with
      | .integer => number Decimal.readInt64? .int
      | .float => number Decimal.readFloat? .float
      | .string => leaf (.string (t.text.getD ""))
      | .null => leaf .null
      | .identifier => get >>= fun c =>
        if c.next.kind = .openParen then call (operators primary operatorLevels 0) else name
      | .plus => signed .plus primary
      | .minus => signed .minus primary
      | .openParen => parenthesized (operators primary operatorLevels 0)
      | _ => unexpected .expression := by
  funext c
  change (atom primary).runOn c = Action.runOn _ c
  rw [runOn_atom, runOn_bind_ok (runOn_current c)]
  cases c.current.kind with
  | identifier => exact (runOn_ifNext _ _ c).symm
  | _ => rfl

theorem inStep_atom (hprimary : ExprInStep n after primary primary) :
    ExprInStep n after (atom primary) (atom primary) := by
  have hexpr := inStep_operators hprimary operatorLevels 0
  intro m b
  rw [atom_eq]
  refine .current fun t => ?_
  dsimp only [Token.shift]
  split
  · exact inStep_number _ _ m b
  · exact inStep_number _ _ m b
  · exact inStep_leaf _ m b
  · exact inStep_leaf _ m b
  · have hcall := beginsWithName_call (hexpr 0 false).moves
    exact .behindName (inStep_call hexpr m b) (inStep_name m b) hcall beginsWithName_name hcall
      beginsWithName_name
  · exact inStep_signed _ hprimary m b
  · exact inStep_signed _ hprimary m b
  · exact inStep_parenthesized hexpr m b
  · exact .unexpected _

end

theorem inStep_primary (levels : Nat) : ExprInStep n after (primary levels) (primary levels) := by
  induction levels with
  | zero => exact fun m b => .current fun t => .throw (.nestingTooDeep t.start)
  | succ levels ih => exact fun m b => (inStep_atom ih m b).nested

theorem inStep_expr : ExprInStep n after expr expr :=
  inStep_operators (inStep_primary _) _ _

/-! ## Statements -/

variable {m : Nat} {b : Bool}

/-- Reading an expression and the semicolon behind it. -/
theorem inStep_semicolon {β : Type} {x : Parse α} (hx : InStep n after ⟨m, b⟩ ⟨m - 1, true⟩ x x)
    (f : α → β) :
    InStep n after ⟨m, b⟩ ⟨m - 1, false⟩ (x >>= fun a => expect .semicolon >>= fun _ => pure (f a))
      (x >>= fun a => expect .semicolon >>= fun _ => pure (f a)) :=
  hx.bind fun a => (InStep.expect _).bind fun _ =>
    (InStep.pure (f a)).weaken (Nat.sub_le _ _) nofun

theorem inStep_constBinding :
    InStep n after ⟨m, b⟩ ⟨m - 1, false⟩ constBinding constBinding :=
  (InStep.expect _).bind fun _ => InStep.ident.bind fun x => (InStep.expect _).bind fun _ =>
    (inStep_semicolon (inStep_expr _ _) fun e => (x, e)).weaken (by dsimp only; omega) id

theorem inStep_varBinding : InStep n after ⟨m, b⟩ ⟨m - 1, false⟩ varBinding varBinding := by
  refine (InStep.expect _).bind fun _ => InStep.ident.bind fun x => .ifEat _ ?_ ?_
  · exact (inStep_semicolon ((inStep_expr _ _).map some) fun e => (x, e)).weaken
      (by dsimp only; omega) id
  · exact (InStep.pure none).bind fun _ => (InStep.expect _).bind fun _ =>
      (InStep.pure _).weaken (by dsimp only; omega) nofun

theorem inStep_assignment : InStep n after ⟨m, b⟩ ⟨m - 1, false⟩ assignment assignment :=
  InStep.ident.bind fun x => (InStep.expect _).bind fun _ =>
    (inStep_semicolon (inStep_expr _ _) (Stmt.assign x)).weaken (by dsimp only; omega) id

theorem inStep_returnStmt : InStep n after ⟨m, b⟩ ⟨m - 1, false⟩ returnStmt returnStmt :=
  (InStep.expect _).bind fun _ =>
    (inStep_semicolon (inStep_expr _ _) Stmt.ret).weaken (by dsimp only; omega) id

theorem inStep_callStmt : InStep n after ⟨m, b⟩ ⟨m - 1, false⟩ callStmt callStmt :=
  inStep_semicolon (inStep_call inStep_expr m b) Stmt.expr

/-- The kind of the current token decides what is read. -/
theorem stmt_eq :
    stmt = current >>= fun t =>
      match t.kind with
      | .constWord => (fun b => .const b.1 b.2) <$> constBinding
      | .varWord => (fun b => .var b.1 (b.2.getD .null)) <$> varBinding
      | .returnWord => returnStmt
      | .identifier => get >>= fun c => if c.next.kind = .openParen then callStmt else assignment
      | _ => unexpected .statement := by
  funext c
  change stmt.runOn c = Action.runOn _ c
  rw [runOn_stmt, runOn_bind_ok (runOn_current c)]
  cases c.current.kind with
  | identifier => exact (runOn_ifNext _ _ c).symm
  | _ => rfl

theorem inStep_stmt : InStep n after ⟨m, b⟩ ⟨m - 1, false⟩ stmt stmt := by
  rw [stmt_eq]
  refine .current fun t => ?_
  dsimp only [Token.shift]
  split
  · exact inStep_constBinding.map _
  · exact inStep_varBinding.map _
  · exact inStep_returnStmt
  · exact .behindName inStep_callStmt inStep_assignment beginsWithName_callStmt
      beginsWithName_assignment beginsWithName_callStmt beginsWithName_assignment
  · exact .unexpected _

/-! ## Functions -/

theorem inStep_param (f : String) (ps : Params) :
    InStep n after ⟨m, b⟩ ⟨m - 1, false⟩ (param f ps) (param f ps) := by
  rw [param_eq]
  refine .current fun t => InStep.ident.bind fun x => ?_
  dsimp only [Token.shift]
  split
  · exact .throw (.duplicateParam f x t.start)
  · refine .ifEat _ ?_ ?_
    · refine (inStep_expr _ _).bind fun e => ?_
      exact (InStep.pure _).weaken (by dsimp only; omega) nofun
    · split
      · exact (InStep.pure _).weaken (Nat.le_refl _) nofun
      · exact .throw (.requiredAfterOptional f x t.start)

theorem inStep_params (f : String) {rs rs' : List Token} (hrounds : Rounds m rs rs' after)
    (ps : Params) : InStep n after ⟨m, false⟩ ⟨m, false⟩ (params f rs ps) (params f rs' ps) := by
  refine .loop (moves_params f) (fun _ _ => .unexpected _) ?_ hrounds ps
  intro m t t' rs rs' ih ps
  refine (inStep_param f ps).bind fun ps => .ifEat _ ?_ (.ifEat _ ?_ (.unexpected _))
  · exact (InStep.pure ps).weaken (by dsimp only; omega) id
  · exact .weaken (.strengthen (ih ps) (Nat.sub_le _ _) id) (Nat.sub_le _ _) id

theorem inStep_paramList (f : String) :
    InStep n after ⟨m, b⟩ ⟨m, false⟩ (paramList f) (paramList f) := by
  refine .ifEat _ ((InStep.pure _).weaken (Nat.sub_le _ _) nofun)
    (.rounds fun l hl rs rs' hrounds => ?_)
  exact .weaken (.strengthen (inStep_params f hrounds {}) (Nat.le_refl l) nofun) hl id

theorem inStep_body {rs rs' : List Token} (hrounds : Rounds m rs rs' after) :
    InStep n after ⟨m, false⟩ ⟨m, false⟩ (body rs) (body rs') := by
  refine .loop (σ := Unit) (x := fun rs _ => body rs) (y := fun rs _ => body rs)
    (fun rs _ => moves_body rs) (fun _ _ => .unexpected _) ?_ hrounds ()
  intro m t t' rs rs' ih _
  refine .ifEat _ ((InStep.pure _).weaken (Nat.sub_le _ _) id) (inStep_stmt.bind fun s => ?_)
  exact (ih ()).bind fun ss => (InStep.pure _).weaken (Nat.sub_le _ _) id

theorem inStep_function : InStep n after ⟨m, b⟩ ⟨m - 1, false⟩ function function := by
  refine (InStep.expect _).bind fun _ => InStep.ident.bind fun x => (InStep.expect _).bind fun _ =>
    (inStep_paramList x).bind fun ps => (InStep.expect _).bind fun _ =>
      .rounds fun l hl rs rs' hrounds => ?_
  refine (inStep_body hrounds).bind fun ss => (InStep.pure _).weaken ?_ id
  dsimp only at hl ⊢
  omega

/-! ## Declarations -/

theorem inStep_decl : InStep n after ⟨m, b⟩ ⟨m - 1, false⟩ decl decl := by
  refine .current fun t => ?_
  dsimp only [Token.shift]
  split
  · exact inStep_constBinding.bind fun b => .pure (Decl.const b.1 b.2)
  · exact inStep_varBinding.bind fun b => .pure (Decl.var b.1 b.2)
  · exact inStep_function.map _
  · exact .unexpected _

theorem inStep_decls {rs rs' : List Token} (hrounds : Rounds m rs rs' after) :
    InStep n after ⟨m, false⟩ ⟨m, false⟩ (decls rs) (decls rs') := by
  refine .loop (σ := Unit) (x := fun rs _ => decls rs) (y := fun rs _ => decls rs)
    (fun rs _ => moves_decls rs) (fun _ _ => .unexpected _) ?_ hrounds ()
  intro m t t' rs rs' ih _
  refine .current fun t => ?_
  dsimp only [Token.shift]
  split
  · exact .pure []
  · refine inStep_decl.bind fun d => (ih ()).bind fun ds => ?_
    exact (InStep.pure _).weaken (Nat.sub_le _ _) id

theorem inStep_program : InStep n after ⟨m, false⟩ ⟨m, false⟩ program program := by
  refine .rounds fun l hl rs rs' hrounds => (inStep_decls hrounds).bind fun ds => ?_
  exact (InStep.pure _).weaken hl id

end Parse

end Scriptlet
