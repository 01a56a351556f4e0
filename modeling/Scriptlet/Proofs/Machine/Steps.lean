-- SUMMARY: What each step of the machine does when it is run, one equation for each.
import Scriptlet.Machine.Run
import Scriptlet.Proofs.Action

/-!
# Steps of the machine

Equations for running the parts that evaluation is made of. Proofs about
evaluation cite them and do not open the definitions.
-/
namespace Scriptlet

namespace Eval

open Scriptlet.Action

variable {α : Type}

@[simp] theorem runOn_fail (e : RuntimeError) (m : Machine) :
    (fail e : Eval α).runOn m = (.error (.error e), m) := rfl

@[simp] theorem runOn_lift (result : Except RuntimeError α) (m : Machine) :
    (lift result).runOn m = (result.mapError .error, m) := by
  cases result <;> rfl

theorem runOn_update (step : Machine → Except RuntimeError Machine) (m : Machine) :
    (update step).runOn m = match step m with
      | .ok m' => (.ok (), m')
      | .error e => (.error (.error e), m) := by
  simp only [update, runOn_bind, runOn_get, runOn_lift]
  cases step m <;> rfl

@[simp] theorem runOn_resolve (ident : String) (m : Machine) :
    (resolve ident).runOn m = ((m.resolve ident).mapError .error, m) := by
  simp only [resolve, runOn_bind, runOn_get, runOn_lift]

theorem runOn_checkArity (ident : String) (least greatest received : Nat) (m : Machine) :
    (checkArity ident least greatest received).runOn m =
      if least ≤ received ∧ received ≤ greatest then (.ok (), m)
      else (.error (.error (.arity ident least greatest received)), m) := by
  unfold checkArity
  split <;> rfl

theorem runOn_nested (x : Eval α) (m : Machine) :
    (nested x).runOn m =
      if m.limits.evaluations ≤ m.depth then
        (.error (.error (.tooDeep .evaluation m.limits.evaluations)), m)
      else
        let (result, m') := x.runOn { m with depth := m.depth + 1 }
        (result, { m' with depth := m'.depth - 1 }) := by
  simp only [nested, runOn_bind, runOn_get]
  split <;> rfl

theorem runOn_nested_full {x : Eval α} {m : Machine} (h : m.limits.evaluations ≤ m.depth) :
    (nested x).runOn m = (.error (.error (.tooDeep .evaluation m.limits.evaluations)), m) := by
  rw [runOn_nested, if_pos h]

theorem runOn_nested_room {x : Eval α} {m m' : Machine} {r : Except Halt α}
    (h : ¬ m.limits.evaluations ≤ m.depth)
    (hx : x.runOn { m with depth := m.depth + 1 } = (r, m')) :
    (nested x).runOn m = (r, { m' with depth := m'.depth - 1 }) := by
  rw [runOn_nested, if_neg h, hx]

theorem runOn_inFrame (x : Eval α) (m : Machine) :
    (inFrame x).runOn m =
      let (result, m') := x.runOn { m with frames := {} :: m.frames }
      (result, { m' with frames := m'.frames.tail }) := rfl

theorem runOn_inFrame_of {x : Eval α} {m m' : Machine} {r : Except Halt α}
    (hx : x.runOn { m with frames := {} :: m.frames } = (r, m')) :
    (inFrame x).runOn m = (r, { m' with frames := m'.frames.tail }) := by
  rw [runOn_inFrame, hx]

theorem runOn_allowCall (f : Function) (args : List Value) (m : Machine) :
    (allowCall f args).runOn m =
      if f.minArgs ≤ args.length ∧ args.length ≤ f.maxArgs then
        if m.limits.calls ≤ m.frames.length then
          (.error (.error (.tooDeep .call m.limits.calls)), m)
        else (.ok (), m)
      else (.error (.error (.arity f.ident f.minArgs f.maxArgs args.length)), m) := by
  rw [allowCall, runOn_bind, runOn_checkArity]
  by_cases ha : f.minArgs ≤ args.length ∧ args.length ≤ f.maxArgs
  · simp only [if_pos ha, runOn_bind, runOn_get]
    split <;> rfl
  · simp only [if_neg ha]

/-- Whether a call is allowed is decided by the limit on calls and by how many are active. -/
theorem exists_runOn_allowCall (f : Function) (args : List Value) (calls active : Nat) :
    ∃ r, ∀ m : Machine, m.limits.calls = calls → m.frames.length = active →
      (allowCall f args).runOn m = (r, m) := by
  by_cases ha : f.minArgs ≤ args.length ∧ args.length ≤ f.maxArgs
  · by_cases hfull : calls ≤ active
    · refine ⟨.error (.error (.tooDeep .call calls)), fun m hcalls hactive => ?_⟩
      rw [runOn_allowCall, if_pos ha, hcalls, hactive, if_pos hfull]
    · refine ⟨.ok (), fun m hcalls hactive => ?_⟩
      rw [runOn_allowCall, if_pos ha, hcalls, hactive, if_neg hfull]
  · exact ⟨.error (.error (.arity f.ident f.minArgs f.maxArgs args.length)), fun m _ _ => by
      rw [runOn_allowCall, if_neg ha]⟩

section
variable {eval : Expr → Eval Value} {call : Function → List Value → Eval Value} {m : Machine}
  {x : String}

theorem runOn_namedCall_function {f : Function} (hf : m.functions.get? x = some f)
    (es : List Expr) :
    (namedCall eval call x es).runOn m = (list eval es >>= call f).runOn m := by
  rw [namedCall, runOn_bind_ok (runOn_get m), hf]

theorem runOn_namedCall_builtin {b : Builtin} (hf : m.functions.get? x = none)
    (hb : m.builtins.get? x = some b) (es : List Expr) :
    (namedCall eval call x es).runOn m = (list eval es >>= callBuiltin b).runOn m := by
  rw [namedCall, runOn_bind_ok (runOn_get m), hf, hb]

theorem runOn_namedCall_other (hf : m.functions.get? x = none) (hb : m.builtins.get? x = none)
    (es : List Expr) :
    (namedCall eval call x es).runOn m =
      match m.resolve x with
      | .ok _ => (.error (.error (.type (.variableCalled x))), m)
      | .error _ => (.error (.error (.unresolved x)), m) := by
  rw [namedCall, runOn_bind_ok (runOn_get m), hf, hb]
  cases m.resolve x <;> rfl

end

end Eval

namespace Machine

variable {m m' : Machine}

theorem isTaken_eq_false_iff {x : String} :
    m.isTaken x = false ↔ m.globals.contains x = false ∧ m.functions.contains x = false ∧
      m.builtins.contains x = false := by
  simp only [isTaken, isCallable, Bool.or_eq_false_iff]

theorem declareFunction_eq_ok_iff {f : Function} :
    m.declareFunction f = .ok m' ↔
      m.isTaken f.ident = false ∧ { m with functions := m.functions.insert f.ident f } = m' := by
  unfold declareFunction
  cases m.isTaken f.ident <;> simp

theorem declareGlobal_eq_ok_iff {x : String} {v : Value} {mutability : Mutability} :
    m.declareGlobal x v mutability = .ok m' ↔
      m.isTaken x = false ∧ { m with globals := m.globals.insert x ⟨v, mutability⟩ } = m' := by
  unfold declareGlobal
  cases htaken : m.isTaken x with
  | true => simp
  | false =>
    have hnew := (isTaken_eq_false_iff.mp htaken).1
    simp [Scope.declare, hnew, bind, Except.bind, pure, Except.pure]

theorem declare_global {x : String} {v : Value} {mutability : Mutability} (h : m.frames = []) :
    m.declare x v mutability =
      (m.globals.declare x v mutability).map fun globals => { m with globals } := by
  simp only [declare, h]
  rfl

theorem declare_local {x : String} {v : Value} {mutability : Mutability} {scope : Scope}
    {others : List Scope} (h : m.frames = scope :: others) :
    m.declare x v mutability =
      (scope.declare x v mutability).map fun scope => { m with frames := scope :: others } := by
  simp only [declare, h]
  rfl

theorem assign_global {x : String} {v : Value}
    (h : ∀ scope ∈ m.frames.head?, scope.contains x = false) :
    m.assign x v = ((m.globals.assign x v).mapError (AssignError.toRuntimeError x)).map
      fun globals => { m with globals } := by
  unfold assign
  cases hframes : m.frames with
  | nil =>
    cases m.globals.assign x v <;>
      simp [Except.map, bind, Except.bind, pure, Except.pure, Except.mapError]
  | cons scope others =>
    have hnone : scope.contains x = false := h scope (by rw [hframes]; rfl)
    cases m.globals.assign x v <;>
      simp [hnone, Except.map, bind, Except.bind, pure, Except.pure, Except.mapError]

theorem assign_local {x : String} {v : Value} {scope : Scope} {others : List Scope}
    (h : m.frames = scope :: others) (hx : scope.contains x = true) :
    m.assign x v = ((scope.assign x v).mapError (AssignError.toRuntimeError x)).map
      fun scope => { m with frames := scope :: others } := by
  unfold assign
  cases hassign : scope.assign x v <;>
    simp [h, hx, hassign, Except.map, bind, Except.bind, pure, Except.pure, Except.mapError]

/-! ## What names do not depend on -/

/-- The function sets something of a machine that variables neither depend on nor change. -/
structure KeepsVariables (f : Machine → Machine) : Prop where
  globals (m : Machine) : (f m).globals = m.globals
  frames (m : Machine) : (f m).frames = m.frames
  setGlobals (m : Machine) (globals : Scope) : f { m with globals } = { f m with globals }
  setFrames (m : Machine) (frames : List Scope) : f { m with frames } = { f m with frames }

/-- The function sets something of a machine that binding a name neither looks at nor changes. -/
structure Inert (f : Machine → Machine) : Prop extends KeepsVariables f where
  builtins (m : Machine) : (f m).builtins = m.builtins
  functions (m : Machine) : (f m).functions = m.functions
  setFunctions (m : Machine) (functions : Table Function) :
    f { m with functions } = { f m with functions }

section
variable {f : Machine → Machine} (m : Machine) (x : String) (v : Value) (mutability : Mutability)

namespace KeepsVariables

variable (hf : KeepsVariables f)
include hf

theorem map_globals {ε : Type} (result : Except ε Scope) :
    (result.map fun globals => { f m with globals }) =
      (result.map fun globals => { m with globals }).map f := by
  cases result with
  | ok globals => exact congrArg Except.ok (hf.setGlobals m globals).symm
  | error e => rfl

theorem map_frames {ε : Type} (result : Except ε Scope) (others : List Scope) :
    (result.map fun scope => { f m with frames := scope :: others }) =
      (result.map fun scope => { m with frames := scope :: others }).map f := by
  cases result with
  | ok scope => exact congrArg Except.ok (hf.setFrames m (scope :: others)).symm
  | error e => rfl

theorem declare : (f m).declare x v mutability = (m.declare x v mutability).map f := by
  have hframes := hf.frames m
  cases h : m.frames with
  | nil =>
    rw [declare_global h, declare_global (hframes.trans h), hf.globals, hf.map_globals]
  | cons scope others =>
    rw [declare_local h, declare_local (hframes.trans h), hf.map_frames]

theorem assign : (f m).assign x v = (m.assign x v).map f := by
  have hframes := hf.frames m
  by_cases h : ∀ scope ∈ m.frames.head?, scope.contains x = false
  · rw [assign_global h, assign_global (by rwa [hframes]), hf.globals, hf.map_globals]
  · cases hm : m.frames with
    | nil => simp [hm] at h
    | cons scope others =>
      have hx : scope.contains x = true := by simpa [hm] using h
      rw [assign_local hm hx, assign_local (hframes.trans hm) hx, hf.map_frames]

end KeepsVariables

namespace Inert

variable (hf : Inert f)
include hf

theorem isTaken : (f m).isTaken x = m.isTaken x := by
  rw [Machine.isTaken, Machine.isTaken, isCallable, isCallable, hf.globals, hf.functions,
    hf.builtins]

theorem declareFunction (g : Function) :
    (f m).declareFunction g = (m.declareFunction g).map f := by
  unfold Machine.declareFunction
  rw [hf.isTaken, hf.functions]
  split
  · rfl
  · exact congrArg Except.ok (hf.setFunctions m _).symm

theorem declareGlobal :
    (f m).declareGlobal x v mutability = (m.declareGlobal x v mutability).map f := by
  unfold Machine.declareGlobal
  rw [hf.isTaken, hf.globals]
  split
  · rfl
  · exact hf.map_globals m (m.globals.declare x v mutability)

end Inert

end

end Machine

end Scriptlet
