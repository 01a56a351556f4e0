-- SUMMARY: Evaluation recurses no deeper than the depth may grow, so that its equations have one solution.
import Scriptlet.Proofs.Machine.Fuel

/-!
# Recursion

Operands, arguments, default values and the bodies of functions are evaluated on levels
of their own, and functions may call one another without end. Here that is stated
without fuel: one level of evaluation leaves its parts to an evaluator. Whatever is put
in place of the levels deeper than the depth may still grow, it is never asked for
anything. So there is only one evaluator that leaves the parts to itself, and it is the
one with fuel for those levels.
-/
namespace Scriptlet.Eval

open Scriptlet.Action

/-- What evaluates expressions and calls functions. -/
structure Evaluator where
  expr : Expr → Eval Value
  call : Function → List Value → Eval Value

/-- What there is to do in an evaluation. -/
inductive Task where
  | expr (e : Expr)
  /-- What an expression asks for once it counts towards the depth: for a call, all of it. -/
  | node (e : Expr)
  | call (f : Function) (args : List Value)
  /-- What a call asks for once it counts towards the depth and has its scope. -/
  | enter (f : Function) (args : List Value)

namespace Evaluator

/-- Does a task. -/
def perform (E : Evaluator) : Task → Eval Value
  | .expr e => E.expr e
  | .node e => node E.expr E.call e
  | .call f args => E.call f args
  | .enter f args => enter E.expr f args

/-- One level of evaluation, which counts towards the depth and leaves its parts to an evaluator. -/
def level (E : Evaluator) : Evaluator where
  expr e := Eval.nested (E.perform (.node e))
  call f args := do
    allowCall f args
    Eval.nested (inFrame (E.perform (.enter f args)))

/-- Evaluation on `n` levels. What is allowed to go deeper is left to an evaluator. -/
def levels (E : Evaluator) : Nat → Evaluator
  | 0 =>
    { expr := fun e => Eval.nested (E.expr e)
      call := fun f args => do
        allowCall f args
        Eval.nested (E.call f args) }
  | n + 1 => (E.levels n).level

/-- Evaluation with fuel for `n` levels. -/
def withFuel (n : Nat) : Evaluator := ⟨Eval.expr n, Eval.call n⟩

/-- Evaluation with the fuel that the machine's limits allow. -/
def fuelled : Evaluator where
  expr := Eval.value
  call f args := do Eval.call (← get).levelsLeft f args

/-! ## Evaluators within some levels -/

/-- On machines that have at most `n` levels left, the evaluator does what fuel for `n` levels does,
and does not starve. -/
structure Fits (n : Nat) (E : Evaluator) : Prop where
  expr (e : Expr) : SameWithin n (E.expr e) (Eval.expr n e)
  call (f : Function) (args : List Value) : SameWithin n (E.call f args) (Eval.call n f args)

variable {n : Nat} {E E' : Evaluator}

theorem Fits.perform (h : E.Fits n) (t : Task) :
    SameWithin n (E.perform t) ((withFuel n).perform t) := by
  have hsim := simulation_sameWithin.on
  cases t with
  | expr e => exact h.expr e
  | call f args => exact h.call f args
  | enter f args => exact hsim.enter (fun e _ => h.expr e) f.within_true args
  | node e =>
    exact hsim.node (fun e _ => h.expr e) (fun _ _ hsame => hsame n) (fun f _ => h.call f)
      e.within_true

theorem Fits.perform_eq (h : E.Fits n) (h' : E'.Fits n) {m : Machine} (hm : m.levelsLeft ≤ n)
    (t : Task) : (E.perform t).runOn m = (E'.perform t).runOn m :=
  (h.perform t m hm).1.trans (h'.perform t m hm).1.symm

/-- An evaluator is determined by what it does within each number of levels. -/
theorem eq_of_fits (h : ∀ n, E.Fits n) (h' : ∀ n, E'.Fits n) : E = E' := by
  have hperform (t : Task) : E.perform t = E'.perform t := by
    funext m
    exact (h m.levelsLeft).perform_eq (h' m.levelsLeft) (Nat.le_refl _) t
  have hexpr : E.expr = E'.expr := funext fun e => hperform (.expr e)
  have hcall : E.call = E'.call := funext fun f => funext fun args => hperform (.call f args)
  cases E
  cases E'
  cases hexpr
  cases hcall
  rfl

/-- Without a level left, nothing is asked of the parts. -/
theorem fits_zero_level (E : Evaluator) : E.level.Fits 0 where
  expr _ := sameWithin_zero_nested _ _
  call f args := (sequential_sameWithin 0).bind (sameWithin_allowCall 0 f args) fun _ =>
    sameWithin_zero_nested _ _

theorem Fits.level (h : E.Fits n) : E.level.Fits (n + 1) where
  expr e := (h.perform (.node e)).nested
  call f args := (sequential_sameWithin (n + 1)).bind (sameWithin_allowCall (n + 1) f args)
    fun _ => (h.perform (.enter f args)).inFrame.nested

theorem fits_levels (E : Evaluator) (n : Nat) : (E.levels n).Fits n := by
  induction n with
  | zero =>
    exact ⟨fun _ => sameWithin_zero_nested _ _, fun f args =>
      (sequential_sameWithin 0).bind (sameWithin_allowCall 0 f args) fun _ =>
        sameWithin_zero_nested _ _⟩
  | succ n ih => exact ih.level

theorem fits_withFuel (n : Nat) : (withFuel n).Fits n := by
  obtain ⟨hexpr, hcall⟩ := sameWithin_eval n 0
  rw [Nat.zero_add] at hexpr hcall
  exact ⟨hexpr, hcall⟩

/-- Fuel for the levels that a machine has left does what fuel for any more does. -/
theorem fits_fuelled (n : Nat) : fuelled.Fits n := by
  have hmore {m : Machine} (hm : m.levelsLeft ≤ n) :=
    Nat.sub_add_cancel hm ▸ sameWithin_eval m.levelsLeft (n - m.levelsLeft)
  exact ⟨fun e m hm => (hmore hm).1 e m (Nat.le_refl _),
    fun f args m hm => (hmore hm).2 f args m (Nat.le_refl _)⟩

/-! ## The evaluator that leaves the parts to itself -/

theorem fits_of_level_eq (h : E.level = E) (n : Nat) : E.Fits n := by
  induction n with
  | zero => exact h ▸ fits_zero_level E
  | succ n ih => exact h ▸ ih.level

theorem fits_level_fuelled (n : Nat) : fuelled.level.Fits n := by
  cases n with
  | zero => exact fits_zero_level fuelled
  | succ n => exact (fits_fuelled n).level

theorem level_eq_iff : E.level = E ↔ E = fuelled := by
  constructor
  · exact fun h => eq_of_fits (fits_of_level_eq h) fits_fuelled
  · rintro rfl
    exact eq_of_fits fits_level_fuelled fits_fuelled

end Evaluator

/-! ## Programs -/

theorem programSimulation_sameWithin (n : Nat) : ProgramSimulation (SameWithin n) where
  toSequential := sequential_sameWithin n
  value e := sameWithin_of_unstarved fun m =>
    ((Evaluator.fits_fuelled m.levelsLeft).expr e m (Nat.le_refl _)).2
  declareFunction f := sameWithin_update fun m m' h => by
    obtain ⟨-, rfl⟩ := Machine.declareFunction_eq_ok_iff.mp h
    exact ⟨rfl, rfl⟩
  declareGlobal x v mutability := sameWithin_update fun m m' h => by
    obtain ⟨-, rfl⟩ := Machine.declareGlobal_eq_ok_iff.mp h
    exact ⟨rfl, rfl⟩

open Evaluator in
/-- The equations of evaluation have one solution: evaluation with fuel for the levels that a machine
has left, or for any more. It does not get to a level beyond those, whatever would be done there, and
it does not starve; nor does any program. -/
theorem recursion_bounded :
    (∀ E : Evaluator, E.level = E ↔ E = fuelled) ∧
      ∀ m : Machine,
        (∀ (t : Task) (more : Nat),
          (∀ deeper : Evaluator, ((deeper.levels (m.levelsLeft + more)).perform t).runOn m =
            (fuelled.perform t).runOn m) ∧
          ((withFuel (m.levelsLeft + more)).perform t).runOn m = (fuelled.perform t).runOn m ∧
          ((fuelled.perform t).runOn m).1 ≠ .error .starved) ∧
        ∀ p, ((program p).runOn m).1 ≠ .error .starved := by
  refine ⟨fun E => level_eq_iff, fun m => ⟨fun t more => ?_, fun p => ?_⟩⟩
  · have hleft : m.levelsLeft ≤ m.levelsLeft + more := Nat.le_add_right _ _
    have hfuelled := fits_fuelled (m.levelsLeft + more)
    refine ⟨fun deeper => ?_, ?_, ?_⟩
    · exact (fits_levels deeper _).perform_eq hfuelled hleft t
    · exact (fits_withFuel _).perform_eq hfuelled hleft t
    · exact (hfuelled.perform t m hleft).2.halt
  · exact ((programSimulation_sameWithin m.levelsLeft).program p m (Nat.le_refl _)).2.halt

end Scriptlet.Eval
