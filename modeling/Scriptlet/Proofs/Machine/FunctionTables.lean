-- SUMMARY: Machines whose functions do the same when they are called run programs alike.
import Scriptlet.Proofs.Machine.Simulation
import Scriptlet.Proofs.Semantics.Sound

/-!
# Machines with other functions

Evaluation looks a function up by its name and calls it. Two machines may therefore have
different functions under a name, or the same ones in another order, as long as those under
one name do the same when they are called. What is evaluated on the two machines then ends in
the same way, and does the same to all but the functions, which it leaves alone.
-/
namespace Scriptlet

open Scriptlet.Action Semantics

/-! ## Tables -/

/-- The tables have functions under the same names, and those under one name do the same when they are
called. -/
def Table.Interchangeable (t t' : Table Function) : Prop :=
  ∀ x, Option.Rel Eval.Interchangeable (t.get? x) (t'.get? x)

namespace Machine

variable {t t' : Table Function}

/-- The machine with other functions. -/
def withFunctions (m : Machine) (functions : Table Function) : Machine := { m with functions }

theorem keepsVariables_withFunctions (t : Table Function) : KeepsVariables (·.withFunctions t) :=
  ⟨fun _ => rfl, fun _ => rfl, fun _ _ => rfl, fun _ _ => rfl⟩

section
variable (h : t.Interchangeable t') (m : Machine) (x : String)
include h

theorem isCallable_withFunctions :
    (m.withFunctions t').isCallable x = (m.withFunctions t).isCallable x := by
  have hx := h x
  simp only [isCallable, withFunctions, Table.contains]
  generalize t.get? x = f at *
  generalize t'.get? x = g at *
  cases hx <;> rfl

theorem isTaken_withFunctions :
    (m.withFunctions t').isTaken x = (m.withFunctions t).isTaken x := by
  rw [isTaken, isTaken, isCallable_withFunctions h]
  rfl

theorem resolve_withFunctions :
    (m.withFunctions t').resolve x = (m.withFunctions t).resolve x := by
  rw [resolve, resolve, isCallable_withFunctions h]
  rfl

/-- A name stands for functions that do the same, or for the same thing that is no function. -/
theorem callee_withFunctions :
    (∃ f g, (m.withFunctions t).callee x = .ok (.inl f) ∧
      (m.withFunctions t').callee x = .ok (.inl g) ∧ Eval.Interchangeable f g) ∨
    (m.withFunctions t').callee x = (m.withFunctions t).callee x ∧
      ∀ f, (m.withFunctions t).callee x ≠ .ok (.inl f) := by
  have hx := h x
  have hresolve := resolve_withFunctions h m x
  have hfunction := fun f => get?_of_callee (m := m.withFunctions t) (x := x) (f := f)
  simp only [callee, hresolve] at *
  simp only [withFunctions] at *
  generalize t.get? x = f at *
  generalize t'.get? x = g at *
  cases hx with
  | some hfg => exact .inl ⟨_, _, rfl, rfl, hfg⟩
  | none => exact .inr ⟨rfl, fun f hf => absurd (hfunction f hf) (Option.some_ne_none f).symm⟩

end

end Machine

/-! ## Actions -/

namespace Eval

open Machine

variable {α β : Type} {t t' : Table Function} {x y : Eval α}

/-- With the functions `t` the first action does what the second one does with the functions `t'`. Both
leave the functions alone. -/
def Parallel (t t' : Table Function) ⦃α : Type⦄ (x y : Eval α) : Prop :=
  ∀ m : Machine, ∃ (r : Except Halt α) (n : Machine),
    x.runOn (m.withFunctions t) = (r, n.withFunctions t) ∧
      y.runOn (m.withFunctions t') = (r, n.withFunctions t')

theorem parallel_of_run (r : Machine → Except Halt α) (next : Machine → Machine)
    (h : ∀ (m : Machine) u, x.runOn (m.withFunctions u) = (r m, (next m).withFunctions u)) :
    Parallel t t' x x :=
  fun m => ⟨r m, next m, h m t, h m t'⟩

theorem Parallel.bind {f g : α → Eval β} (hx : Parallel t t' x y)
    (hf : ∀ a, Parallel t t' (f a) (g a)) : Parallel t t' (x >>= f) (y >>= g) := by
  intro m
  obtain ⟨r, n, hrun, hrun'⟩ := hx m
  cases r with
  | error e => exact ⟨.error e, n, runOn_bind_error hrun, runOn_bind_error hrun'⟩
  | ok a =>
    obtain ⟨r, k, hk, hk'⟩ := hf a n
    exact ⟨r, k, (runOn_bind_ok hrun).trans hk, (runOn_bind_ok hrun').trans hk'⟩

theorem sequential_parallel : Sequential (Parallel t t') where
  pure a := parallel_of_run (fun _ => .ok a) id fun _ _ => runOn_pure a _
  fail e := parallel_of_run (fun _ => .error (.error e)) id fun _ _ => runOn_fail e _
  bind := Parallel.bind

/-! ### Steps -/

/-- A step that gives the same with other functions, but for the functions. -/
theorem parallel_update {step : Machine → Except RuntimeError Machine}
    (h : ∀ m : Machine, ∃ result : Except RuntimeError Machine,
      step (m.withFunctions t) = result.map (·.withFunctions t) ∧
        step (m.withFunctions t') = result.map (·.withFunctions t')) :
    Parallel t t' (update step) (update step) := by
  intro m
  obtain ⟨result, hstep, hstep'⟩ := h m
  rw [runOn_update, runOn_update, hstep, hstep']
  cases result with
  | ok n => exact ⟨.ok (), n, rfl, rfl⟩
  | error e => exact ⟨.error (.error e), m, rfl, rfl⟩

theorem parallel_declare (z : String) (v : Value) (mutability : Mutability) :
    Parallel t t' (declare z v mutability) (declare z v mutability) :=
  parallel_update fun m => ⟨m.declare z v mutability,
    (keepsVariables_withFunctions t).declare m z v mutability,
    (keepsVariables_withFunctions t').declare m z v mutability⟩

theorem parallel_assign (z : String) (v : Value) : Parallel t t' (assign z v) (assign z v) :=
  parallel_update fun m => ⟨m.assign z v, (keepsVariables_withFunctions t).assign m z v,
    (keepsVariables_withFunctions t').assign m z v⟩

theorem parallel_callBuiltin (b : Builtin) (vs : List Value) :
    Parallel t t' (callBuiltin b vs) (callBuiltin b vs) := by
  intro m
  have hrun := runOn_callBuiltin b vs (m.withFunctions t) m.world
  have hrun' := runOn_callBuiltin b vs (m.withFunctions t') m.world
  split at hrun
  · next ha => exact ⟨_, m.withWorld (carryOut b vs m.world).2, hrun, hrun'.trans (if_pos ha)⟩
  · next ha => exact ⟨_, m, hrun, hrun'.trans (if_neg ha)⟩

theorem parallel_allowCall (f : Function) (vs : List Value) :
    Parallel t t' (allowCall f vs) (allowCall f vs) := by
  intro m
  obtain ⟨r, hrun⟩ := exists_runOn_allowCall f vs m.limits.calls m.frames.length
  exact ⟨r, m, hrun _ rfl rfl, hrun _ rfl rfl⟩

theorem Parallel.nested (hx : Parallel t t' x y) : Parallel t t' (nested x) (nested y) := by
  intro m
  by_cases hfull : m.limits.evaluations ≤ m.depth
  · exact ⟨_, m, runOn_nested_full (m := m.withFunctions t) hfull,
      runOn_nested_full (m := m.withFunctions t') hfull⟩
  · obtain ⟨r, n, hrun, hrun'⟩ := hx { m with depth := m.depth + 1 }
    exact ⟨r, { n with depth := n.depth - 1 },
      runOn_nested_room (m := m.withFunctions t) hfull hrun,
      runOn_nested_room (m := m.withFunctions t') hfull hrun'⟩

theorem Parallel.inFrame (hx : Parallel t t' x y) : Parallel t t' (inFrame x) (inFrame y) := by
  intro m
  obtain ⟨r, n, hrun, hrun'⟩ := hx { m with frames := {} :: m.frames }
  have hframe := runOn_inFrame_of (m := m.withFunctions t) hrun
  have hframe' := runOn_inFrame_of (m := m.withFunctions t') hrun'
  exact ⟨r, { n with frames := n.frames.tail }, hframe, hframe'⟩

/-! ### Evaluations -/

section
variable (h : t.Interchangeable t')
include h

theorem parallel_resolve (z : String) : Parallel t t' (resolve z) (resolve z) := by
  intro m
  refine ⟨_, m, runOn_resolve z _, ?_⟩
  rw [runOn_resolve, resolve_withFunctions h]

theorem parallel_callee_bind {z : String} {f g : Function ⊕ Builtin → Eval α}
    (hsame : ∀ k l : Function, Interchangeable k l → g (.inl l) = g (.inl k))
    (hfunction : ∀ k, Parallel t t' (f (.inl k)) (g (.inl k)))
    (hbuiltin : ∀ b, Parallel t t' (f (.inr b)) (g (.inr b))) :
    Parallel t t' (callee z >>= f) (callee z >>= g) := by
  intro m
  have hrun := runOn_callee z (m.withFunctions t)
  have hrun' := runOn_callee z (m.withFunctions t')
  obtain ⟨k, l, hk, hl, hkl⟩ | ⟨hother, hnone⟩ := callee_withFunctions h m z
  · rw [hk] at hrun
    rw [hl] at hrun'
    rw [runOn_bind_ok hrun, runOn_bind_ok hrun', hsame k l hkl]
    exact hfunction k m
  · rw [hother] at hrun'
    generalize (m.withFunctions t).callee z = result at *
    rcases result with e | k | b
    · exact ⟨_, m, runOn_bind_error hrun, runOn_bind_error hrun'⟩
    · exact absurd rfl (hnone k)
    · rw [runOn_bind_ok hrun, runOn_bind_ok hrun']
      exact hbuiltin b m

theorem simulationOn_parallel :
    SimulationOn (fun _ => True) (fun _ => True) (fun _ => Parallel t t') (fun _ => Parallel t t') where
  expressions _ := sequential_parallel.toChaining
  statements _ := sequential_parallel.toChaining
  expression := id
  resolve _ z _ := parallel_resolve h z
  unary _ op v := sequential_parallel.lift (op.apply v)
  binary _ op u v := sequential_parallel.lift (op.apply u v)
  valueCalled _ _ := sequential_parallel.fail _
  called _ _ _ hsame hfunction hbuiltin :=
    parallel_callee_bind h hsame (fun k => hfunction k k.within_true) fun b => hbuiltin b trivial
  callBuiltin _ b _ := parallel_callBuiltin b
  allowCall _ := parallel_allowCall
  declare _ z _ := parallel_declare z
  assign _ z _ := parallel_assign z
  nested := Parallel.nested
  inFrame := Parallel.inFrame

theorem parallel_value (e : Expr) : Parallel t t' (value e) (value e) := by
  have hstarved : Parallel t t' (throw .starved : Eval Value) (throw .starved) :=
    parallel_of_run (fun _ => .error .starved) id fun _ _ => runOn_throw _ _
  intro m
  exact ((simulationOn_parallel h).levels_same hstarved.nested m.levelsLeft).1 e e.within_true m

theorem parallel_declareGlobal (z : String) (v : Value) (mutability : Mutability) :
    Parallel t t' (update (·.declareGlobal z v mutability))
      (update (·.declareGlobal z v mutability)) := by
  refine parallel_update fun m => ?_
  have htaken := isTaken_withFunctions h m z
  simp only [Machine.declareGlobal, htaken]
  split
  · exact ⟨.error (.alreadyDeclared z), rfl, rfl⟩
  · exact ⟨_, (keepsVariables_withFunctions t).map_globals m (m.globals.declare z v mutability),
      (keepsVariables_withFunctions t').map_globals m (m.globals.declare z v mutability)⟩

theorem variableSimulationOn_parallel : VariableSimulationOn (fun _ => True) (Parallel t t') where
  toChaining := sequential_parallel.toChaining
  value e _ := parallel_value h e
  declareGlobal z v mutability _ := parallel_declareGlobal h z v mutability

theorem parallel_globals (ds : List Decl) : Parallel t t' (globals ds) (globals ds) :=
  (variableSimulationOn_parallel h).globals fun d _ => d.within_true

end

end Eval

/-! ## Runs -/

namespace Machine

variable {t t' : Table Function} {m m' n : Machine} {p q : Program}

theorem run_of_parallel {r : Except Halt Unit}
    (hp : (Eval.program p).runOn m = (r, n.withFunctions t))
    (hq : (Eval.program q).runOn m' = (r, n.withFunctions t')) :
    ∃ result k, m.run p = (result, withFunctions k t) ∧ m'.run q = (result, withFunctions k t') := by
  refine ⟨_, n.atRest, Prod.ext rfl ?_, Prod.ext ?_ ?_⟩
  · rw [run_snd, hp]
    rfl
  · rw [run_fst, run_fst, hp, hq]
    rfl
  · rw [run_snd, hq]
    rfl

/-- Programs with the same variables are run alike once their functions are declared, or refused, alike. -/
theorem run_of_functions {r : Except Halt Unit}
    (hp : (Eval.functions p.functions).runOn m = (r, n.withFunctions t))
    (hq : (Eval.functions q.functions).runOn m' = (r, n.withFunctions t'))
    (hglobals : Eval.globals q.decls = Eval.globals p.decls) (h : t.Interchangeable t') :
    ∃ result k, m.run p = (result, withFunctions k t) ∧ m'.run q = (result, withFunctions k t') := by
  cases r with
  | error e => exact run_of_parallel (runOn_bind_error hp) (runOn_bind_error hq)
  | ok _ =>
    obtain ⟨r, k, hrun, hrun'⟩ := Eval.parallel_globals h p.decls n
    rw [← hglobals] at hrun'
    exact run_of_parallel ((runOn_bind_ok hp).trans hrun) ((runOn_bind_ok hq).trans hrun')

end Machine

end Scriptlet
