-- SUMMARY: Fuel for as many levels as the depth may still grow is never used up, and more makes no difference.
import Scriptlet.Proofs.Machine.Simulation
import Scriptlet.Proofs.Semantics.Sound

/-!
# Fuel

Each level of fuel is also a level of depth, and the depth is checked first. So an
evaluation with fuel for the levels that are left ends because it is too deep before
it starves, and it does what it does with any more fuel.
-/
namespace Scriptlet.Eval

open Scriptlet.Action

variable {α β : Type}

/-- An action did not starve, and left the limits and the depth as they were. -/
structure Unstarved (m : Machine) (ended : Except Halt α × Machine) : Prop where
  halt : ended.1 ≠ .error .starved
  limits : ended.2.limits = m.limits
  depth : ended.2.depth = m.depth

/-- On machines that have at most `n` levels left, the actions do the same and do not starve. -/
def SameWithin (n : Nat) ⦃α : Type⦄ (x y : Eval α) : Prop :=
  ∀ m : Machine, m.levelsLeft ≤ n → x.runOn m = y.runOn m ∧ Unstarved m (x.runOn m)

variable {n : Nat} {x y : Eval α}

theorem Unstarved.levelsLeft {m : Machine} {ended : Except Halt α × Machine}
    (h : Unstarved m ended) : ended.2.levelsLeft = m.levelsLeft := by
  rw [Machine.levelsLeft, h.limits, h.depth, Machine.levelsLeft]

theorem sameWithin_of_unstarved (h : ∀ m, Unstarved m (x.runOn m)) : SameWithin n x x :=
  fun m _ => ⟨rfl, h m⟩

theorem sequential_sameWithin (n : Nat) : Sequential (SameWithin n) where
  pure a := sameWithin_of_unstarved fun _ => ⟨nofun, rfl, rfl⟩
  fail e := sameWithin_of_unstarved fun _ => ⟨nofun, rfl, rfl⟩
  bind {α β x y f g} hx hf := by
    intro m hm
    obtain ⟨heq, hx⟩ := hx m hm
    rw [runOn_bind, runOn_bind, ← heq]
    rcases hrun : x.runOn m with ⟨e | a, m'⟩ <;> rw [hrun] at hx
    · exact ⟨rfl, fun hstarved => hx.halt (congrArg _ (Except.error.inj hstarved)), hx.limits,
        hx.depth⟩
    · have hleft : m'.levelsLeft = m.levelsLeft := hx.levelsLeft
      obtain ⟨heq, hf⟩ := hf a m' (hleft ▸ hm)
      exact ⟨heq, hf.halt, hf.limits.trans hx.limits, hf.depth.trans hx.depth⟩

theorem SameWithin.nested (h : SameWithin n x y) : SameWithin (n + 1) (nested x) (nested y) := by
  intro m hm
  rw [runOn_nested, runOn_nested]
  split
  · exact ⟨rfl, nofun, rfl, rfl⟩
  · have hleft : Machine.levelsLeft { m with depth := m.depth + 1 } ≤ n := by
      unfold Machine.levelsLeft at *
      dsimp only
      omega
    obtain ⟨heq, hx⟩ := h _ hleft
    rw [← heq]
    exact ⟨rfl, hx.halt, hx.limits, Nat.sub_eq_of_eq_add hx.depth⟩

/-- Without a level left, nothing is evaluated. -/
theorem sameWithin_zero_nested (x y : Eval α) : SameWithin 0 (Eval.nested x) (Eval.nested y) := by
  intro m hm
  have hfull : m.limits.evaluations ≤ m.depth := Nat.le_of_sub_eq_zero (Nat.le_zero.mp hm)
  rw [runOn_nested, runOn_nested, if_pos hfull, if_pos hfull]
  exact ⟨rfl, nofun, rfl, rfl⟩

theorem SameWithin.inFrame (h : SameWithin n x y) : SameWithin n (inFrame x) (inFrame y) := by
  intro m hm
  obtain ⟨heq, hx⟩ := h { m with frames := {} :: m.frames } hm
  rw [runOn_inFrame, runOn_inFrame, ← heq]
  exact ⟨rfl, hx.halt, hx.limits, hx.depth⟩

/-! ## Steps -/

theorem sameWithin_update {step : Machine → Except RuntimeError Machine}
    (h : ∀ m m', step m = .ok m' → m'.limits = m.limits ∧ m'.depth = m.depth) :
    SameWithin n (update step) (update step) := by
  refine sameWithin_of_unstarved fun m => ?_
  rw [runOn_update]
  cases hs : step m with
  | ok m' =>
    obtain ⟨hlimits, hdepth⟩ := h m m' hs
    exact ⟨nofun, hlimits, hdepth⟩
  | error e => exact ⟨nofun, rfl, rfl⟩

/-- Declaring a variable changes the scope that it is declared in. -/
theorem exists_eq_of_declare {m m' : Machine} {z : String} {v : Value} {mutability : Mutability}
    (h : m.declare z v mutability = .ok m') : ∃ globals frames, m' = { m with globals, frames } := by
  cases hframes : m.frames with
  | nil =>
    rw [Machine.declare_global hframes] at h
    obtain ⟨globals, -, rfl⟩ := map_eq_ok.mp h
    exact ⟨globals, m.frames, rfl⟩
  | cons scope others =>
    rw [Machine.declare_local hframes] at h
    obtain ⟨scope, -, rfl⟩ := map_eq_ok.mp h
    exact ⟨m.globals, scope :: others, rfl⟩

/-- Assigning to a variable changes the scope that it is in. -/
theorem exists_eq_of_assign {m m' : Machine} {z : String} {v : Value}
    (h : m.assign z v = .ok m') : ∃ globals frames, m' = { m with globals, frames } := by
  by_cases hnone : ∀ scope ∈ m.frames.head?, scope.contains z = false
  · rw [Machine.assign_global hnone] at h
    obtain ⟨globals, -, rfl⟩ := map_eq_ok.mp h
    exact ⟨globals, m.frames, rfl⟩
  · cases hframes : m.frames with
    | nil => simp [hframes] at hnone
    | cons scope others =>
      have hz : scope.contains z = true := by simpa [hframes] using hnone
      rw [Machine.assign_local hframes hz] at h
      obtain ⟨scope, -, rfl⟩ := map_eq_ok.mp h
      exact ⟨m.globals, scope :: others, rfl⟩

theorem sameWithin_lift {result : Machine → Except RuntimeError α}
    (h : ∀ m, x.runOn m = ((result m).mapError .error, m)) : SameWithin n x x := by
  refine sameWithin_of_unstarved fun m => ?_
  rw [h m]
  cases result m with
  | ok a => exact ⟨nofun, rfl, rfl⟩
  | error e => exact ⟨nofun, rfl, rfl⟩

theorem carryOut_ne_starved (b : Builtin) (vs : List Value) (w : Semantics.World) :
    (Semantics.carryOut b vs w).1 ≠ .error .starved := by
  unfold Semantics.carryOut
  rcases (b.routine.carryOut vs).runOn w.sink with ⟨e | v, sink⟩
  · cases e <;> exact nofun
  · exact nofun

theorem sameWithin_callBuiltin (n : Nat) (b : Builtin) (vs : List Value) :
    SameWithin n (callBuiltin b vs) (callBuiltin b vs) := by
  refine sameWithin_of_unstarved fun m => ?_
  have hrun := Semantics.runOn_callBuiltin b vs m m.world
  rw [show m.withWorld m.world = m from rfl] at hrun
  rw [hrun]
  split
  · exact ⟨carryOut_ne_starved b vs m.world, rfl, rfl⟩
  · exact ⟨nofun, rfl, rfl⟩

theorem sameWithin_allowCall (n : Nat) (f : Function) (vs : List Value) :
    SameWithin n (allowCall f vs) (allowCall f vs) := by
  refine sameWithin_of_unstarved fun m => ?_
  rw [runOn_allowCall]
  split
  · split <;> exact ⟨nofun, rfl, rfl⟩
  · exact ⟨nofun, rfl, rfl⟩

/-! ## Evaluations -/

theorem simulation_sameWithin : Simulation SameWithin SameWithin where
  expressions := sequential_sameWithin
  statements := sequential_sameWithin
  expression := id
  resolve _ z := sameWithin_lift (runOn_resolve z)
  callee _ z := sameWithin_lift (runOn_callee z)
  callBuiltin := sameWithin_callBuiltin
  allowCall := sameWithin_allowCall
  declare _ _ _ _ := sameWithin_update fun _ _ h => by
    obtain ⟨_, _, rfl⟩ := exists_eq_of_declare h
    exact ⟨rfl, rfl⟩
  assign _ _ _ := sameWithin_update fun _ _ h => by
    obtain ⟨_, _, rfl⟩ := exists_eq_of_assign h
    exact ⟨rfl, rfl⟩
  nested := SameWithin.nested
  inFrame := SameWithin.inFrame

/-- Fuel for all levels that are left gives what any more fuel gives, and does not run out. -/
theorem sameWithin_eval (n j : Nat) :
    (∀ e, SameWithin n (expr n e) (expr (j + n) e)) ∧
      ∀ f vs, SameWithin n (call n f vs) (call (j + n) f vs) := by
  have hnone (z : Eval Value) : SameWithin 0 (Eval.nested (throw .starved)) (Eval.nested z) :=
    sameWithin_zero_nested _ z
  refine simulation_sameWithin.levels (fun e => ?_) (fun f vs => ?_) n
  · cases j <;> exact hnone _
  · have hallow := sameWithin_allowCall 0 f vs
    cases j <;> exact (sequential_sameWithin 0).bind hallow fun _ => hnone _

/-- A call ends with a value, an exit or a fault if it is given fuel for the levels that are
left. -/
theorem call_ne_starved {m : Machine} {fuel : Nat} (h : m.levelsLeft ≤ fuel) (f : Function)
    (vs : List Value) : ((call fuel f vs).runOn m).1 ≠ .error .starved :=
  (((sameWithin_eval fuel 0).2 f vs) m h).2.halt

end Scriptlet.Eval
