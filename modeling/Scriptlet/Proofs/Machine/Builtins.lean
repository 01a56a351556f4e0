-- SUMMARY: Builtins whose arity fits are never called without an argument that they read.
import Scriptlet.Proofs.Machine.Capacity
import Scriptlet.Proofs.Machine.Fuel

/-!
# Arguments of builtins

A builtin reads as many arguments as its routine needs, and its arity is checked before it
is called. If each builtin of a machine takes at least as many arguments as it reads, none
of them misses one, whatever is evaluated.
-/
namespace Scriptlet

open Scriptlet.Action

/-! ## Tables of builtins -/

/-- The number of arguments that the routine reads whatever it is given. -/
def Routine.reads : Routine → Nat
  | .three | .exit => 0
  | .print | .println => 1

/-- The builtin takes as many arguments as it reads. -/
def Builtin.Supplied (b : Builtin) : Prop := b.routine.reads ≤ b.least

instance (b : Builtin) : Decidable b.Supplied := inferInstanceAs (Decidable (_ ≤ _))

/-- Each builtin takes as many arguments as it reads. -/
def Builtins.Supplied (bs : Builtins) : Prop := ∀ x b, bs.get? x = some b → b.Supplied

namespace Builtins

theorem Supplied.add {bs : Builtins} {b : Builtin} (hbs : bs.Supplied) (hb : b.Supplied) :
    (bs.add b).Supplied := by
  intro x c hc
  rw [Builtins.add, Table.get?_insert] at hc
  split at hc
  · cases hc
    exact hb
  · exact hbs x c hc

theorem Supplied.foldl {bs : Builtins} (hbs : bs.Supplied) {added : List Builtin}
    (hadded : ∀ b ∈ added, b.Supplied) : (added.foldl Builtins.add bs).Supplied := by
  induction added generalizing bs with
  | nil => exact hbs
  | cons b added ih =>
    obtain ⟨hb, hadded⟩ := List.forall_mem_cons.mp hadded
    exact ih (hbs.add hb) hadded

theorem supplied_standard : standard.Supplied := by
  have hnone : Supplied {} := by
    intro x b hb
    rw [Table.get?_empty] at hb
    cases hb
  exact hnone.foldl (by decide)

end Builtins

/-! ## Faults -/

theorem Scope.declare_ne_missingArgument (s : Scope) (x : String) (v : Value)
    (mutability : Mutability) : s.declare x v mutability ≠ .error .missingArgument := by
  unfold Scope.declare
  split <;> exact nofun

theorem Routine.carryOut_ne_missingArgument {r : Routine} {vs : List Value}
    (h : r.reads ≤ vs.length) (s : Sink) : ((r.carryOut vs).runOn s).1 ≠ .error .missingArgument := by
  have houtput (text : String) (s : Sink) :
      ((output text).runOn s).1 ≠ .error .missingArgument := by
    rw [runOn_output]
    rcases (Sink.write text).runOn s with ⟨e | _, t⟩ <;> rintro ⟨⟩
  fun_cases Routine.carryOut r vs with
  | case5 v vs => exact houtput _ s
  | case6 v vs =>
    have hfirst := houtput v.display s
    rw [runOn_bind]
    rcases hrun : (output v.display).runOn s with ⟨e | a, t⟩ <;> rw [hrun] at hfirst
    · exact hfirst
    · exact houtput _ t
  | case7 => cases h
  | case8 => cases h
  | _ => rintro ⟨⟩

namespace Eval

variable {α β : Type} {x : Eval α}

/-! ## Steps -/

/-- Where each builtin is supplied, the action misses no argument and leaves the builtins as they
are. -/
def Supplies (x : Eval α) : Prop := ∀ m : Machine, m.builtins.Supplied →
  (x.runOn m).1 ≠ .error (.error .missingArgument) ∧ (x.runOn m).2.builtins = m.builtins

theorem supplies_of_same {r : Machine → Except Halt α}
    (h : ∀ m, x.runOn m = (r m, m)) (hr : ∀ m, r m ≠ .error (.error .missingArgument)) :
    Supplies x := by
  intro m _
  rw [h m]
  exact ⟨hr m, rfl⟩

theorem chaining_supplies : Chaining fun _ x _ => Supplies x where
  pure a := supplies_of_same (fun _ => runOn_pure a _) fun _ => nofun
  bind {α β x _ f _} hx hf m hm := by
    obtain ⟨hend, hsame⟩ := hx m hm
    rcases hrun : x.runOn m with ⟨e | a, m'⟩ <;> rw [hrun] at hend hsame
    · rw [runOn_bind_error hrun]
      exact ⟨fun h => hend (congrArg _ (Except.error.inj h)), hsame⟩
    · rw [runOn_bind_ok hrun]
      obtain ⟨hend', hsame'⟩ := hf a m' (hsame ▸ hm)
      exact ⟨hend', hsame'.trans hsame⟩

theorem supplies_update {step : Machine → Except RuntimeError Machine}
    (hsame : ∀ m m', step m = .ok m' → m'.builtins = m.builtins)
    (hfault : ∀ m, step m ≠ .error .missingArgument) : Supplies (update step) := by
  intro m _
  rw [runOn_update]
  cases hs : step m with
  | ok m' => exact ⟨nofun, hsame m m' hs⟩
  | error e =>
    refine ⟨fun h => hfault m ?_, rfl⟩
    cases h
    exact hs

theorem map_ne_error {ε γ δ : Type} {result : Except ε γ} {g : γ → δ} {e : ε} (h : result ≠ .error e) :
    result.map g ≠ .error e := by
  rcases result with e' | c
  · exact fun heq => h (congrArg _ (Except.error.inj heq))
  · exact nofun

theorem supplies_lift {result : Except RuntimeError α} (h : result ≠ .error .missingArgument) :
    Supplies (lift result) := by
  refine supplies_of_same (fun m => runOn_lift result m) fun m heq => h ?_
  cases result <;> cases heq
  rfl

theorem supplies_resolve (x : String) : Supplies (resolve x) := by
  refine supplies_of_same (fun m => runOn_resolve x m) fun m h => ?_
  unfold Machine.resolve at h
  split at h
  · cases h
  · split at h <;> cases h

theorem supplies_callee_bind (x : String) {f : Function ⊕ Builtin → Eval α}
    (hfunction : ∀ g, Supplies (f (.inl g))) (hbuiltin : ∀ b : Builtin, b.Supplied → Supplies (f (.inr b))) :
    Supplies (callee x >>= f) := by
  intro m hm
  have hrun := runOn_callee x m
  unfold Machine.callee at hrun
  split at hrun
  · rw [runOn_bind_ok hrun]
    exact hfunction _ m hm
  · next b _ hb =>
    rw [runOn_bind_ok hrun]
    exact hbuiltin b (hm x b hb) m hm
  · split at hrun <;> rw [runOn_bind_error hrun] <;> exact ⟨nofun, rfl⟩

theorem supplies_callBuiltin {b : Builtin} (hb : b.Supplied) (vs : List Value) :
    Supplies (callBuiltin b vs) := by
  intro m _
  have hrun := Semantics.runOn_callBuiltin b vs m m.world
  change (callBuiltin b vs).runOn m = _ at hrun
  rw [hrun]
  split
  · next hvs =>
    have hcarry := Routine.carryOut_ne_missingArgument (Nat.le_trans hb hvs.1) m.sink
    rw [Semantics.carryOut_eq]
    refine ⟨?_, rfl⟩
    change ((b.routine.carryOut vs).runOn m.sink).1.mapError Semantics.haltOf ≠ _
    generalize ((b.routine.carryOut vs).runOn m.sink).1 = r at hcarry
    rcases r with e | v
    · cases e with
      | missingArgument => exact absurd rfl hcarry
      | _ => exact nofun
    · exact nofun
  · exact ⟨nofun, rfl⟩

theorem supplies_allowCall (f : Function) (vs : List Value) : Supplies (allowCall f vs) := by
  intro m _
  rw [runOn_allowCall]
  split
  · split <;> exact ⟨nofun, rfl⟩
  · exact ⟨nofun, rfl⟩

theorem supplies_declare (x : String) (v : Value) (mutability : Mutability) :
    Supplies (declare x v mutability) := by
  refine supplies_update (fun m m' h => ?_) fun m => ?_
  · obtain ⟨globals, frames, rfl⟩ := exists_eq_of_declare h
    rfl
  · cases hframes : m.frames with
    | nil =>
      rw [Machine.declare_global hframes]
      exact map_ne_error (Scope.declare_ne_missingArgument _ _ _ _)
    | cons scope others =>
      rw [Machine.declare_local hframes]
      exact map_ne_error (Scope.declare_ne_missingArgument _ _ _ _)

theorem supplies_assign (x : String) (v : Value) : Supplies (assign x v) := by
  refine supplies_update (fun m m' h => ?_) fun m => ?_
  · obtain ⟨globals, frames, rfl⟩ := exists_eq_of_assign h
    rfl
  · obtain ⟨r, hr⟩ : ∃ r : Except AssignError Machine,
        m.assign x v = r.mapError (AssignError.toRuntimeError x) := ⟨_, rfl⟩
    rw [hr]
    rcases r with e | m'
    · cases e <;> exact nofun
    · exact nofun

theorem Supplies.nested (hx : Supplies x) : Supplies (nested x) := by
  intro m hm
  rw [runOn_nested]
  split
  · exact ⟨nofun, rfl⟩
  · exact hx { m with depth := m.depth + 1 } hm

theorem Supplies.inFrame (hx : Supplies x) : Supplies (inFrame x) :=
  fun m hm => hx { m with frames := {} :: m.frames } hm

/-! ## Evaluations -/

theorem simulationOn_supplies : SimulationOn (fun _ => True) Builtin.Supplied
    (fun _ _ x _ => Supplies x) (fun _ _ x _ => Supplies x) where
  expressions _ := chaining_supplies
  statements _ := chaining_supplies
  expression := id
  resolve _ x _ := supplies_resolve x
  unary _ op v := supplies_lift (by cases op <;> cases v <;> exact nofun)
  binary _ op u v := by
    refine supplies_lift fun h => ?_
    unfold BinaryOp.apply at h
    split at h
    · split at h <;> cases h
    · split at h
      · split at h <;> cases h
      · cases h
  valueCalled _ ty := supplies_of_same (fun _ => runOn_fail _ _) fun _ => nofun
  called _ _ _ _ hfunction hbuiltin := supplies_callee_bind _ (fun g => hfunction g g.within_true) hbuiltin
  callBuiltin _ _ hb := supplies_callBuiltin hb
  allowCall _ := supplies_allowCall
  declare _ x _ := supplies_declare x
  assign _ x _ := supplies_assign x
  nested := Supplies.nested
  inFrame := Supplies.inFrame

theorem supplies_value (e : Expr) : Supplies (value e) := by
  have hstarved : Supplies (throw .starved : Eval Value) :=
    supplies_of_same (fun _ => runOn_throw _ _) fun _ => nofun
  exact fun m hm =>
    (simulationOn_supplies.levels_same hstarved.nested m.levelsLeft).1 e e.within_true m hm

theorem programSimulationOn_supplies : ProgramSimulationOn (fun _ => True) fun _ x _ => Supplies x where
  toChaining := chaining_supplies
  value e _ := supplies_value e
  declareFunction f _ := by
    refine supplies_update (fun m m' h => ?_) fun m h => ?_
    · obtain ⟨-, rfl⟩ := Machine.declareFunction_eq_ok_iff.mp h
      rfl
    · unfold Machine.declareFunction at h
      split at h <;> cases h
  declareGlobal x v mutability _ := by
    refine supplies_update (fun m m' h => ?_) fun m h => ?_
    · obtain ⟨-, rfl⟩ := Machine.declareGlobal_eq_ok_iff.mp h
      rfl
    · unfold Machine.declareGlobal at h
      split at h
      · cases h
      · exact map_ne_error (Scope.declare_ne_missingArgument m.globals x v mutability) h

/-- Where each builtin takes as many arguments as it reads, no program makes one miss an argument. -/
theorem program_ne_missingArgument {m : Machine} (hm : m.builtins.Supplied) (p : Program) :
    ((program p).runOn m).1 ≠ .error (.error .missingArgument) :=
  (programSimulationOn_supplies.program p.within_true m hm).1

end Eval

end Scriptlet
