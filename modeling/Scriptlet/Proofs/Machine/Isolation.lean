-- SUMMARY: Calls neither see nor change the variables of the calls that are active around them.
import Scriptlet.Proofs.Machine.Fuel

/-!
# Isolation of calls

Two machines may differ in the variables of their active calls, as long as equally
many calls are active. Whatever is called does the same on both, and gives both their
own variables back. Within the call it is one level down: the scope of the call itself
is the same on both sides, and only those below it differ.
-/
namespace Scriptlet.Eval

open Scriptlet.Action Semantics

variable {α β σ : Type} {move : Machine → σ → Machine} {x : Eval α}

/-- From `move m s`, the action does the same whatever the scopes of the calls active on `m` hold,
and leaves those scopes alone. -/
def Alike (move : Machine → σ → Machine) (x : Eval α) : Prop :=
  ∀ (m : Machine) (others : List Scope), others.length = m.frames.length → ∀ s, ∃ r t,
    x.runOn (move m s) = (r, move m t) ∧
      x.runOn (move { m with frames := others } s) = (r, move { m with frames := others } t)

/-- The action does the same whatever the active calls have as variables. -/
abbrev Isolated (x : Eval α) : Prop := Alike Machine.withWorld x

/-- The action does the same whatever the calls below the innermost one have as variables. -/
abbrev IsolatedIn (x : Eval α) : Prop := Alike Machine.inCall x

/-! ## Steps -/

theorem Alike.bind {f : α → Eval β} (hx : Alike move x) (hf : ∀ a, Alike move (f a)) :
    Alike move (x >>= f) := by
  intro m others hlength s
  obtain ⟨r, t, hrun, hrun'⟩ := hx m others hlength s
  cases r with
  | error h => exact ⟨.error h, t, runOn_bind_error hrun, runOn_bind_error hrun'⟩
  | ok a =>
    obtain ⟨r, u, hf, hf'⟩ := hf a m others hlength t
    exact ⟨r, u, (runOn_bind_ok hrun).trans hf, (runOn_bind_ok hrun').trans hf'⟩

theorem alike_of_same {r : Except Halt α} (h : ∀ m s, x.runOn (move m s) = (r, move m s)) :
    Alike move x := fun m others _ s => ⟨r, s, h m s, h { m with frames := others } s⟩

theorem sequential_alike (move : Machine → σ → Machine) : Sequential fun _ x _ => Alike move x where
  pure a := alike_of_same fun _ _ => runOn_pure a _
  fail e := alike_of_same fun _ _ => runOn_fail e _
  bind := Alike.bind

/-- What is isolated from all active calls is so from those below the innermost one. -/
theorem Isolated.isolatedIn (hx : Isolated x) : IsolatedIn x := by
  rintro m others hlength ⟨ρ, w⟩
  obtain ⟨r, w', hrun, hrun'⟩ :=
    hx (m.inCall (ρ, w)) (ρ :: others) (by simpa using hlength) w
  exact ⟨r, (ρ, w'), hrun, hrun'⟩

theorem Isolated.nested (hx : Isolated x) : Isolated (nested x) := by
  intro m others hlength w
  by_cases hfull : m.limits.evaluations ≤ m.depth
  · exact ⟨_, w, runOn_nested_full hfull, runOn_nested_full hfull⟩
  · obtain ⟨r, w', hrun, hrun'⟩ := hx { m with depth := m.depth + 1 } others hlength w
    exact ⟨r, w', runOn_nested_room (m := m.withWorld w) hfull hrun,
      runOn_nested_room (m := Machine.withWorld { m with frames := others } w) hfull hrun'⟩

theorem IsolatedIn.nested (hx : IsolatedIn x) : IsolatedIn (Eval.nested x) := by
  intro m others hlength s
  by_cases hfull : m.limits.evaluations ≤ m.depth
  · exact ⟨_, s, runOn_nested_full hfull, runOn_nested_full hfull⟩
  · obtain ⟨r, t, hrun, hrun'⟩ := hx { m with depth := m.depth + 1 } others hlength s
    exact ⟨r, t, runOn_nested_room (m := m.inCall s) hfull hrun,
      runOn_nested_room (m := Machine.inCall { m with frames := others } s) hfull hrun'⟩

/-- The scope of a call hides all others from what runs in it. -/
theorem IsolatedIn.inFrame (hx : IsolatedIn x) : Isolated (inFrame x) := by
  intro m others hlength w
  obtain ⟨r, t, hrun, hrun'⟩ := hx m others hlength ({}, w)
  exact ⟨r, t.2, runOn_inFrame_of hrun, runOn_inFrame_of hrun'⟩

/-- Calls are counted, and nothing else of them is looked at. -/
theorem isolated_allowCall (f : Function) (vs : List Value) : Isolated (allowCall f vs) := by
  intro m others hlength w
  obtain ⟨r, hrun⟩ := exists_runOn_allowCall f vs m.limits.calls m.frames.length
  exact ⟨r, w, hrun _ rfl rfl, hrun _ rfl hlength⟩

theorem isolated_callBuiltin (b : Builtin) (vs : List Value) : Isolated (callBuiltin b vs) := by
  intro m others _ w
  have hrun := runOn_callBuiltin b vs m w
  have hrun' := runOn_callBuiltin b vs { m with frames := others } w
  split at hrun
  · next ha =>
    rw [if_pos ha] at hrun'
    exact ⟨_, _, hrun, hrun'⟩
  · next ha =>
    rw [if_neg ha] at hrun'
    exact ⟨_, _, hrun, hrun'⟩

theorem isolatedIn_declare (y : String) (v : Value) (mutability : Mutability) :
    IsolatedIn (declare y v mutability) := by
  rintro m others _ ⟨ρ, w⟩
  have hrun := runOn_declare m ρ w y v mutability
  have hrun' := runOn_declare { m with frames := others } ρ w y v mutability
  cases hρ : ρ.declare y v mutability with
  | ok ρ₁ =>
    rw [hρ] at hrun hrun'
    exact ⟨_, _, hrun, hrun'⟩
  | error e =>
    rw [hρ] at hrun hrun'
    exact ⟨_, _, hrun, hrun'⟩

theorem isolatedIn_assign (y : String) (v : Value) : IsolatedIn (assign y v) := by
  rintro m others _ ⟨ρ, w⟩
  have hrun := runOn_assign m ρ w y v
  have hrun' := runOn_assign { m with frames := others } ρ w y v
  cases hs : Semantics.assign ρ w y v with
  | ok s =>
    rw [hs] at hrun hrun'
    exact ⟨_, _, hrun, hrun'⟩
  | error e =>
    rw [hs] at hrun hrun'
    exact ⟨_, _, hrun, hrun'⟩

/-- A name is resolved in the scope of the active call, and in the scopes of no others. -/
theorem isolatedIn_resolve (y : String) : IsolatedIn (resolve y) := fun _ _ _ s =>
  ⟨_, s, runOn_resolve y _, runOn_resolve y _⟩

theorem isolatedIn_callee (y : String) : IsolatedIn (callee y) := fun _ _ _ s =>
  ⟨_, s, runOn_callee y _, runOn_callee y _⟩

/-! ## Calls -/

theorem simulation_isolatedIn :
    Simulation (fun _ _ x _ => IsolatedIn x) (fun _ _ x _ => IsolatedIn x) where
  expressions _ := sequential_alike _
  statements _ := sequential_alike _
  expression := id
  resolve _ := isolatedIn_resolve
  callee _ := isolatedIn_callee
  callBuiltin _ b vs := (isolated_callBuiltin b vs).isolatedIn
  allowCall _ f vs := (isolated_allowCall f vs).isolatedIn
  declare _ := isolatedIn_declare
  assign _ := isolatedIn_assign
  nested := IsolatedIn.nested
  inFrame hx := (IsolatedIn.inFrame hx).isolatedIn

theorem isolated_throw (h : Halt) : Isolated (throw h : Eval α) :=
  alike_of_same fun _ _ => runOn_throw h _

theorem isolatedIn_enter (fuel : Nat) (f : Function) (vs : List Value) :
    IsolatedIn (enter (expr fuel) f vs) :=
  simulation_isolatedIn.enter_same (isolated_throw Halt.starved).nested.isolatedIn fuel f vs

theorem isolated_call (fuel : Nat) (f : Function) (vs : List Value) :
    Isolated (call fuel f vs) := by
  have hcall {x : Eval Value} (hx : Isolated x) : Isolated (do allowCall f vs; nested x) :=
    Alike.bind (isolated_allowCall f vs) fun _ => hx.nested
  cases fuel with
  | zero => exact hcall (isolated_throw _)
  | succ fuel => exact hcall (isolatedIn_enter fuel f vs).inFrame

/-- A call ends in the same way and does the same, whatever variables the calls around it have, and
leaves them those variables: each of two machines that differ in nothing else is afterwards what
the other one is, with its own scopes. Fuel for the levels that are left is never used up. -/
theorem call_isolated (fuel : Nat) (f : Function) (vs : List Value) (m : Machine)
    (others : List Scope) (hlength : others.length = m.frames.length) :
    ((call fuel f vs).runOn { m with frames := others }).1 = ((call fuel f vs).runOn m).1 ∧
    ((call fuel f vs).runOn { m with frames := others }).2 =
      { ((call fuel f vs).runOn m).2 with frames := others } ∧
    ((call fuel f vs).runOn m).2.frames = m.frames ∧
    (m.levelsLeft ≤ fuel → ((call fuel f vs).runOn m).1 ≠ .error .starved) := by
  obtain ⟨r, w, hrun, hrun'⟩ := isolated_call fuel f vs m others hlength m.world
  have hm : (call fuel f vs).runOn m = (r, m.withWorld w) := hrun
  have hothers : (call fuel f vs).runOn { m with frames := others } =
      (r, Machine.withWorld { m with frames := others } w) := hrun'
  refine ⟨?_, ?_, ?_, fun hfuel => call_ne_starved hfuel f vs⟩
  · rw [hm, hothers]
  · rw [hm, hothers]
    rfl
  · rw [hm]
    rfl

/-- Assigns to the global variable `x`, and returns it. -/
def assignX : Function := ⟨"f", [], [], [.assign "x" (.int 2), .ret (.name "x")]⟩

/-- In a call from a function that has an `x` of its own, or none. -/
def calledFrom (scope : Scope) : Machine where
  builtins := Builtins.standard
  globals := ⟨[("x", ⟨.int 1, .mutable⟩)]⟩
  frames := [scope]
  depth := 1

/-- A function does not see that its caller has an `x` of its own, which stays what it was. -/
theorem call_isolated_assignX :
    let own : Scope := ⟨[("x", ⟨.int 5, .constant⟩)]⟩
    let ended := (call 511 assignX []).runOn (calledFrom {})
    let ended' := (call 511 assignX []).runOn (calledFrom own)
    (calledFrom {}).levelsLeft ≤ 511 ∧ ended.1 = .ok (.int 2) ∧ ended'.1 = .ok (.int 2) ∧
      ended'.2 = { ended.2 with frames := [own] } ∧ ended.2.global? "x" = some (.int 2) := by
  intro own ended ended'
  obtain ⟨hresult, hmachine, -, -⟩ :=
    call_isolated 511 assignX [] (calledFrom {}) [own] rfl
  have hended : ended.1 = .ok (.int 2) := rfl
  exact ⟨by decide, hended, hresult.trans hended, hmachine, rfl⟩

end Scriptlet.Eval
