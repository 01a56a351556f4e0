-- SUMMARY: Programs read from texts are never evaluated too deeply if the limits leave each call enough levels.
import Scriptlet.Proofs.Machine.Session
import Scriptlet.Proofs.Machine.Steps
import Scriptlet.Proofs.Parse.Shallow

/-!
# The depth of evaluations

The levels of a tree are levels of its evaluation, and a call takes one more
before its function evaluates trees of its own. So with `k` calls active the
depth stays within `257 * k + 256`, and the limit on calls bounds it.

`Keeps` says of an action that it never ends because it is too deep, from the
machines with a property, and that it leaves a machine with that property.
-/
namespace Scriptlet

open Scriptlet.Action

variable {α β : Type}

/-- Does an evaluation that ends so end because it is too deep? -/
def Halt.IsDepth : Halt → Prop
  | .error (.tooDeep .evaluation _) | .starved => True
  | _ => False

namespace Eval

/-! ## Actions that keep a property -/

/-- An action ended in a machine with the property, and not because it was too deep. -/
structure Kept (P : Machine → Prop) (ended : Except Halt α × Machine) : Prop where
  machine : P ended.2
  halt : ∀ h, ended.1 = .error h → ¬ h.IsDepth

/-- From a machine with the property, the action leaves one with the property and is not too
deep. -/
def Keeps (P : Machine → Prop) (x : Eval α) : Prop := ∀ m, P m → Kept P (x.runOn m)

variable {P : Machine → Prop} {m : Machine} {x : Eval α} {f : α → Eval β}

theorem kept_ok {a : α} (hm : P m) : Kept P (.ok a, m) := ⟨hm, nofun⟩

theorem kept_error {e : RuntimeError} (hm : P m) (he : ¬ (Halt.error e).IsDepth) :
    Kept P ((.error (.error e), m) : Except Halt α × Machine) :=
  ⟨hm, fun _ heq => Except.error.inj heq ▸ he⟩

theorem keeps_pure (a : α) : Keeps P (pure a : Eval α) := fun _ hm => kept_ok hm

theorem Keeps.bind (hx : Keeps P x) (hf : ∀ a, Keeps P (f a)) : Keeps P (x >>= f) := by
  intro m hm
  have hx := hx m hm
  rw [runOn_bind]
  rcases hrun : x.runOn m with ⟨e | a, m'⟩ <;> rw [hrun] at hx
  · exact ⟨hx.machine, fun h heq => hx.halt h (congrArg _ (Except.error.inj heq))⟩
  · exact hf a m' hx.machine

theorem keeps_get_bind {f : Machine → Eval β} (hf : ∀ m, P m → Keeps P (f m)) :
    Keeps P (get >>= f) := by
  intro m hm
  rw [runOn_bind_ok (runOn_get m)]
  exact hf m hm m hm

theorem keeps_fail {e : RuntimeError} (he : ¬ (Halt.error e).IsDepth) :
    Keeps P (fail e : Eval α) := by
  intro m hm
  rw [runOn_fail]
  exact kept_error hm he

theorem keeps_lift {r : Except RuntimeError α}
    (hr : ∀ e, r = .error e → ¬ (Halt.error e).IsDepth) : Keeps P (lift r) := by
  cases r with
  | ok a => exact keeps_pure a
  | error e => exact keeps_fail (hr e rfl)

/-- What a step of a machine may give: a machine with the property, or a fault that is no
depth. -/
def Fine (P : Machine → Prop) : Except RuntimeError Machine → Prop
  | .ok m => P m
  | .error e => ¬ (Halt.error e).IsDepth

theorem fine_declare {scope : Scope} {y : String} {v : Value} {mutability : Mutability}
    {k : Scope → Machine} (hk : ∀ scope, P (k scope)) :
    Fine P (do return k (← scope.declare y v mutability)) := by
  unfold Scope.declare
  split
  · exact id
  · exact hk _

theorem fine_assign {scope : Scope} {y : String} {v : Value} {k : Scope → Machine}
    (hk : ∀ scope, P (k scope)) :
    Fine P (Except.mapError (AssignError.toRuntimeError y)
      (do return k (← scope.assign y v))) := by
  unfold Scope.assign
  split
  · exact hk _
  · exact id
  · exact id

theorem keeps_update {step : Machine → Except RuntimeError Machine}
    (h : ∀ m, P m → Fine P (step m)) : Keeps P (update step) := by
  intro m hm
  have hstep := h m hm
  rw [runOn_update]
  cases hs : step m with
  | ok m' =>
    rw [hs] at hstep
    exact kept_ok hstep
  | error e =>
    rw [hs] at hstep
    exact kept_error hm hstep

end Eval

/-! ## Machines at a depth -/

namespace Machine

/-- So many calls are active at such a depth, and the declared functions are shallow. -/
structure At (limits : Limits) (calls depth : Nat) (m : Machine) : Prop where
  limits : m.limits = limits
  calls : m.frames.length = calls
  depth : m.depth = depth
  functions : ∀ x f, m.functions.get? x = some f → f.Shallow

namespace At

open Eval

variable {limits : Limits} {calls depth : Nat} {m : Machine}

theorem declare (hm : m.At limits calls depth) (x : String) (v : Value) (mutability : Mutability) :
    Fine (At limits calls depth) (m.declare x v mutability) := by
  unfold Machine.declare
  split
  · next hframes => exact fine_declare fun _ => ⟨hm.limits, hm.calls, hm.depth, hm.functions⟩
  · next scope others hframes =>
    refine fine_declare fun _ => ⟨hm.limits, ?_, hm.depth, hm.functions⟩
    rw [← hm.calls, hframes]
    rfl

theorem assign (hm : m.At limits calls depth) (x : String) (v : Value) :
    Fine (At limits calls depth) (m.assign x v) := by
  have hglobals : ∀ globals, At limits calls depth { m with globals } :=
    fun _ => ⟨hm.limits, hm.calls, hm.depth, hm.functions⟩
  unfold Machine.assign
  split
  · exact fine_assign hglobals
  · next scope others hframes =>
    split
    · refine fine_assign fun _ => ⟨hm.limits, ?_, hm.depth, hm.functions⟩
      rw [← hm.calls, hframes]
      rfl
    · exact fine_assign hglobals

theorem declareGlobal (hm : m.At limits calls depth) (x : String) (v : Value)
    (mutability : Mutability) :
    Fine (At limits calls depth) (m.declareGlobal x v mutability) := by
  unfold Machine.declareGlobal
  split
  · exact id
  · exact fine_declare fun _ => ⟨hm.limits, hm.calls, hm.depth, hm.functions⟩

theorem declareFunction (hm : m.At limits calls depth) {f : Function} (hf : f.Shallow) :
    Fine (At limits calls depth) (m.declareFunction f) := by
  unfold Machine.declareFunction
  split
  · exact id
  · refine ⟨hm.limits, hm.calls, hm.depth, fun x g hg => ?_⟩
    rw [Table.get?_insert] at hg
    split at hg
    · cases hg
      exact hf
    · exact hm.functions x g hg

end At

end Machine

/-! ## Steps -/

namespace Eval

open Machine (At)

variable {limits : Limits} {calls depth : Nat} {x : Eval α} {P : Machine → Prop}
  {eval : Expr → Eval Value} {call : Function → List Value → Eval Value}

theorem keeps_declare (y : String) (v : Value) (mutability : Mutability) :
    Keeps (At limits calls depth) (declare y v mutability) :=
  keeps_update fun _ hm => hm.declare y v mutability

theorem keeps_assign (y : String) (v : Value) : Keeps (At limits calls depth) (assign y v) :=
  keeps_update fun _ hm => hm.assign y v

theorem keeps_resolve (y : String) : Keeps P (resolve y) := by
  refine keeps_get_bind fun m _ => keeps_lift fun e he => ?_
  unfold Machine.resolve at he
  split at he
  · cases he
  · cases he
    split <;> exact id

theorem keeps_checkArity (ident : String) (least greatest received : Nat) :
    Keeps P (checkArity ident least greatest received) := by
  unfold checkArity
  split
  · exact keeps_pure ()
  · exact keeps_fail id

theorem Keeps.nested (hdepth : depth < limits.evaluations)
    (hx : Keeps (At limits calls (depth + 1)) x) :
    Keeps (At limits calls depth) (Eval.nested x) := by
  intro m hm
  obtain ⟨hx, hhalt⟩ := hx { m with depth := m.depth + 1 }
    ⟨hm.limits, hm.calls, by rw [hm.depth], hm.functions⟩
  rw [runOn_nested, if_neg (by rw [hm.limits, hm.depth]; omega)]
  exact ⟨⟨hx.limits, hx.calls, Nat.sub_eq_of_eq_add hx.depth, hx.functions⟩, hhalt⟩

theorem Keeps.inFrame (hx : Keeps (At limits (calls + 1) depth) x) :
    Keeps (At limits calls depth) (Eval.inFrame x) := by
  intro m hm
  obtain ⟨hx, hhalt⟩ := hx { m with frames := {} :: m.frames }
    ⟨hm.limits, by rw [List.length_cons, hm.calls], hm.depth, hm.functions⟩
  rw [runOn_inFrame]
  exact ⟨⟨hx.limits, by rw [List.length_tail, hx.calls]; rfl, hx.depth, hx.functions⟩, hhalt⟩

/-- A call that is allowed leaves room for itself. -/
theorem Keeps.allowCall_bind (f : Function) (vs : List Value)
    (hx : calls < limits.calls → Keeps (At limits calls depth) x) :
    Keeps (At limits calls depth) (do allowCall f vs; x) := by
  intro m hm
  have hallow := runOn_allowCall f vs m
  split at hallow
  · split at hallow
    · rw [runOn_bind_error hallow]
      exact kept_error hm id
    · next hroom =>
      rw [hm.limits, hm.calls, Nat.not_le] at hroom
      rw [runOn_bind_ok hallow]
      exact hx hroom m hm
  · rw [runOn_bind_error hallow]
    exact kept_error hm id

/-! ## Functions and builtins -/

theorem keeps_stmt {s : Stmt} (h : Keeps (At limits calls depth) (eval s.value)) :
    Keeps (At limits calls depth) (stmt eval s) := by
  cases s with
  | const y e => exact h.bind fun v => (keeps_declare y v _).bind fun _ => keeps_pure _
  | var y e => exact h.bind fun v => (keeps_declare y v _).bind fun _ => keeps_pure _
  | assign y e => exact h.bind fun v => (keeps_assign y v).bind fun _ => keeps_pure _
  | ret e =>
    rw [stmt, map_eq_pure_bind]
    exact h.bind fun v => keeps_pure _
  | expr e => exact h.bind fun _ => keeps_pure _

theorem keeps_body {ss : List Stmt}
    (h : ∀ s ∈ ss, Keeps (At limits calls depth) (eval s.value)) :
    Keeps (At limits calls depth) (body eval ss) := by
  induction ss with
  | nil => exact keeps_pure _
  | cons s ss ih =>
    obtain ⟨hs, hss⟩ := List.forall_mem_cons.mp h
    apply (keeps_stmt hs).bind
    intro returned
    cases returned with
    | some v => exact keeps_pure v
    | none => exact ih hss

theorem keeps_bindRequired (xs : List String) (vs : List Value) :
    Keeps (At limits calls depth) (bindRequired xs vs) := by
  fun_induction bindRequired xs vs with
  | case1 y ys v vs ih => exact (keeps_declare y v _).bind fun _ => ih
  | case2 => exact keeps_pure _

theorem keeps_bindOptional {os : List OptionalParam} (vs : List Value)
    (h : ∀ o ∈ os, Keeps (At limits calls depth) (eval o.default)) :
    Keeps (At limits calls depth) (bindOptional eval os vs) := by
  induction os generalizing vs with
  | nil => exact keeps_pure ()
  | cons o os ih =>
    obtain ⟨ho, hos⟩ := List.forall_mem_cons.mp h
    cases vs with
    | nil => exact ho.bind fun v => (keeps_declare _ v _).bind fun _ => ih [] hos
    | cons v vs => exact (keeps_declare _ v _).bind fun _ => ih vs hos

theorem keeps_enter {f : Function} (vs : List Value)
    (h : ∀ e ∈ f.exprs, Keeps (At limits calls depth) (eval e)) :
    Keeps (At limits calls depth) (enter eval f vs) := by
  rw [Function.exprs, List.forall_mem_append, List.forall_mem_map, List.forall_mem_map] at h
  exact (keeps_bindRequired f.required vs).bind fun others =>
    (keeps_bindOptional others h.1).bind fun _ => keeps_body h.2

theorem keeps_callBuiltin (b : Builtin) (vs : List Value) :
    Keeps (At limits calls depth) (callBuiltin b vs) := by
  apply (keeps_checkArity _ _ _ _).bind
  intro _ m hm
  have hsink : ∀ sink, At limits calls depth { m with sink } :=
    fun _ => ⟨hm.limits, hm.calls, hm.depth, hm.functions⟩
  rw [runOn_bind_ok (runOn_get m)]
  rcases (b.routine.carryOut vs).runOn m.sink with ⟨e | v, sink⟩
  · cases e with
    | exit status => exact ⟨hsink sink, fun h heq => Except.error.inj heq ▸ id⟩
    | type e => exact kept_error (hsink sink) id
    | output e => exact kept_error (hsink sink) id
    | missingArgument => exact kept_error (hsink sink) id
  · exact kept_ok (hsink sink)

/-! ## Expressions -/

theorem keeps_list {es : List Expr} (h : ∀ e ∈ es, Keeps P (eval e)) : Keeps P (list eval es) := by
  induction es with
  | nil => exact keeps_pure []
  | cons e es ih =>
    obtain ⟨he, hes⟩ := List.forall_mem_cons.mp h
    exact he.bind fun v => (ih hes).bind fun vs => keeps_pure _

theorem keeps_namedCall (y : String) {es : List Expr}
    (hargs : ∀ e ∈ es, Keeps (At limits calls depth) (eval e))
    (hcall : ∀ f vs, f.Shallow → Keeps (At limits calls depth) (call f vs)) :
    Keeps (At limits calls depth) (namedCall eval call y es) := by
  apply keeps_get_bind
  intro m hm
  cases hf : m.functions.get? y with
  | some f => exact (keeps_list hargs).bind fun vs => hcall f vs (hm.functions y f hf)
  | none =>
    cases hb : m.builtins.get? y with
    | some b => exact (keeps_list hargs).bind fun vs => keeps_callBuiltin b vs
    | none =>
      dsimp only
      split <;> exact keeps_fail id

theorem not_isDepth_unary {op : UnaryOp} {v : Value} {e : RuntimeError}
    (h : op.apply v = .error e) : ¬ (Halt.error e).IsDepth := by
  unfold UnaryOp.apply at h
  split at h <;> cases h
  exact id

theorem not_isDepth_binary {op : BinaryOp} {u v : Value} {e : RuntimeError}
    (h : op.apply u v = .error e) : ¬ (Halt.error e).IsDepth := by
  unfold BinaryOp.apply at h
  repeat' split at h
  all_goals cases h
  all_goals exact id

/-- An expression keeps what the lower ones in it and the calls of shallow functions keep. -/
theorem keeps_node {e : Expr} (he : e.CallsNames)
    (heval : ∀ e', e'.CallsNames → e'.height < e.height →
      Keeps (At limits calls depth) (eval e'))
    (hcall : ∀ f vs, f.Shallow → Keeps (At limits calls depth) (call f vs)) :
    Keeps (At limits calls depth) (node eval call e) := by
  cases e with
  | null | int n | float z | string s => exact keeps_pure _
  | name y => exact keeps_resolve y
  | unary op e =>
    have hlower : e.height < (Expr.unary op e).height := Nat.lt_succ_self _
    exact (heval e he hlower).bind fun v => keeps_lift fun _ => not_isDepth_unary
  | binary op l r =>
    have hleft : l.height < (Expr.binary op l r).height :=
      Nat.lt_succ_of_le (Nat.le_max_left _ _)
    have hright : r.height < (Expr.binary op l r).height :=
      Nat.lt_succ_of_le (Nat.le_max_right _ _)
    exact (heval l he.1 hleft).bind fun u => (heval r he.2 hright).bind fun v =>
      keeps_lift fun _ => not_isDepth_binary
  | call callee es =>
    obtain ⟨⟨y, rfl⟩, hes⟩ := he
    refine keeps_namedCall y (fun e he => ?_) hcall
    obtain ⟨hnames, hheight⟩ := Expr.AllCallNames.mem hes e he
    exact heval e hnames (Nat.lt_succ_of_le hheight)

/-! ## All levels -/

/-- How deep the evaluation of shallow trees may get while so many calls are active. -/
def deepest (calls : Nat) : Nat := (maxNesting + 1) * calls + maxNesting

theorem deepest_succ (calls : Nat) : deepest (calls + 1) = deepest calls + 1 + maxNesting := by
  rw [deepest, deepest, Nat.mul_succ]
  omega

theorem deepest_le {k n : Nat} (h : k ≤ n) : deepest k ≤ deepest n :=
  Nat.add_le_add_right (Nat.mul_le_mul_left _ h) _

/-- The fuel lasts, and the depth stays within what the calls that are active allow. -/
theorem eval_keeps (hlimits : deepest limits.calls ≤ limits.evaluations) (fuel : Nat) :
    (∀ e calls depth, e.CallsNames → calls ≤ limits.calls → limits.evaluations ≤ depth + fuel →
      depth + e.height ≤ deepest calls → Keeps (At limits calls depth) (expr fuel e)) ∧
    (∀ f vs calls depth, f.Shallow → calls ≤ limits.calls → limits.evaluations ≤ depth + fuel →
      depth ≤ deepest calls → Keeps (At limits calls depth) (Eval.call fuel f vs)) := by
  induction fuel with
  | zero =>
    constructor
    · intro e calls depth he hcalls hfuel hdepth
      have hpos := e.height_pos
      have hdeepest := deepest_le hcalls
      omega
    · intro f vs calls depth hf hcalls hfuel hdepth
      apply Keeps.allowCall_bind f vs
      intro hroom
      have hdeepest := deepest_le hroom
      rw [deepest_succ] at hdeepest
      omega
  | succ fuel ih =>
    constructor
    · intro e calls depth he hcalls hfuel hdepth
      have hpos := e.height_pos
      have hdeepest := deepest_le hcalls
      refine Keeps.nested (by omega) (keeps_node he ?_ ?_)
      · exact fun e' he' hlower => ih.1 e' calls (depth + 1) he' hcalls (by omega) (by omega)
      · exact fun f vs hf => ih.2 f vs calls (depth + 1) hf hcalls (by omega) (by omega)
    · intro f vs calls depth hf hcalls hfuel hdepth
      apply Keeps.allowCall_bind f vs
      intro hroom
      have hdeepest := deepest_le hroom
      rw [deepest_succ] at hdeepest
      -- The call takes one level, and the trees of its function start from there.
      refine Keeps.nested (by omega) (Keeps.inFrame (keeps_enter vs fun e he => ?_))
      obtain ⟨hnames, hheight⟩ := hf e he
      refine ih.1 e (calls + 1) (depth + 1) hnames hroom (by omega) ?_
      rw [deepest_succ]
      omega

/-! ## Programs -/

theorem keeps_value (hlimits : deepest limits.calls ≤ limits.evaluations) {e : Expr}
    (he : e.Shallow) : Keeps (At limits 0 0) (value e) := by
  apply keeps_get_bind
  intro m hm
  refine (eval_keeps hlimits m.levelsLeft).1 e 0 0 he.callsNames (Nat.zero_le _) ?_ ?_
  · have hfuel : limits.evaluations = 0 + m.levelsLeft := by
      rw [Machine.levelsLeft, hm.limits, hm.depth, Nat.sub_zero, Nat.zero_add]
    exact Nat.le_of_eq hfuel
  · rw [Nat.zero_add]
    exact he.height

theorem keeps_functions {fs : List Function} (h : ∀ f ∈ fs, f.Shallow) :
    Keeps (At limits calls depth) (functions fs) := by
  induction fs with
  | nil => exact keeps_pure ()
  | cons f fs ih =>
    obtain ⟨hf, hfs⟩ := List.forall_mem_cons.mp h
    exact (keeps_update fun m hm => hm.declareFunction hf).bind fun _ => ih hfs

theorem keeps_globals (hlimits : deepest limits.calls ≤ limits.evaluations) {ds : List Decl}
    (h : ∀ d ∈ ds, ∀ e ∈ d.exprs, e.Shallow) : Keeps (At limits 0 0) (globals ds) := by
  induction ds with
  | nil => exact keeps_pure ()
  | cons d ds ih =>
    obtain ⟨hd, hds⟩ := List.forall_mem_cons.mp h
    have hdeclare : ∀ y v mutability, Keeps (At limits 0 0)
        (do update (·.declareGlobal y v mutability); globals ds) := fun y v mutability =>
      (keeps_update fun m hm => hm.declareGlobal y v mutability).bind fun _ => ih hds
    cases d with
    | const y e =>
      have he : e.Shallow := hd e (List.mem_singleton_self e)
      exact (keeps_value hlimits he).bind fun v => hdeclare y v _
    | var y e =>
      cases e with
      | none => exact (keeps_pure _).bind fun v => hdeclare y v _
      | some e =>
        have he : e.Shallow := hd e (List.mem_singleton_self e)
        exact (keeps_value hlimits he).bind fun v => hdeclare y v _
    | func f => exact ih hds

theorem keeps_program (hlimits : deepest limits.calls ≤ limits.evaluations) {p : Program}
    (h : ∀ e ∈ p.exprs, e.Shallow) : Keeps (At limits 0 0) (program p) := by
  have hfunctions : ∀ f ∈ p.functions, f.Shallow := fun f hf e he =>
    h e (Program.exprs_subset_of_mem_functions hf he)
  have hglobals : ∀ d ∈ p.decls, ∀ e ∈ d.exprs, e.Shallow := fun d hd e he =>
    h e (List.mem_flatMap.mpr ⟨d, hd, he⟩)
  exact (keeps_functions hfunctions).bind fun _ => keeps_globals hlimits hglobals

end Eval

/-! ## Sessions -/

namespace Machine

open Eval (deepest keeps_program)

variable {limits : Limits} {m : Machine}

theorem At.run (hlimits : deepest limits.calls ≤ limits.evaluations) (hm : m.At limits 0 0)
    {p : Program} (h : ∀ e ∈ p.exprs, e.Shallow) :
    (m.run p).2.At limits 0 0 ∧ ∀ limit, (m.run p).1 ≠ .error (.tooDeep .evaluation limit) := by
  obtain ⟨hm, hhalt⟩ := keeps_program hlimits h m hm
  rcases hrun : (Eval.program p).runOn m with ⟨ended, m'⟩
  rw [hrun] at hm hhalt
  have hrest : m'.atRest.At limits 0 0 := ⟨hm.limits, rfl, rfl, hm.functions⟩
  simp only [Machine.run, hrun]
  split
  · refine ⟨hrest, fun limit hdeep => ?_⟩
    cases hdeep
  · refine ⟨hrest, fun limit hdeep => ?_⟩
    cases ended with
    | ok _ => cases hdeep
    | error halt =>
      cases halt with
      | exit _ => cases hdeep
      | error e =>
        cases hdeep
        exact hhalt _ rfl trivial
      | starved => exact hhalt _ rfl trivial

theorem ReachableByTexts.at (hlimits : deepest limits.calls ≤ limits.evaluations)
    (hm : ReachableByTexts limits m) : m.At limits 0 0 := by
  induction hm with
  | fresh builtins sink => exact ⟨rfl, rfl, rfl, fun x f hf => by cases hf⟩
  | redirect sink _ ih => exact ⟨ih.limits, ih.calls, ih.depth, ih.functions⟩
  | runText text _ ih =>
    unfold Machine.runText
    split
    · exact ih
    · next p hp => exact (At.run hlimits ih (Program.shallow_of_ofText hp)).1

/-- If every call has levels enough for itself and for the highest tree that can be read, no text
that a session reads and runs is too deep to be evaluated. -/
theorem runText_ne_tooDeep_evaluation (hlimits : 257 * limits.calls + 256 ≤ limits.evaluations)
    (hm : ReachableByTexts limits m) (text : String) (limit : Nat) :
    (m.runText text).1 ≠ .error (.runtime (.tooDeep .evaluation limit)) := by
  have hm := hm.at hlimits
  unfold Machine.runText
  split
  · simp
  · next p hp =>
    have hrun := (At.run hlimits hm (Program.shallow_of_ofText hp)).2 limit
    rcases hresult : m.run p with ⟨e | outcome, m'⟩ <;> rw [hresult] at hrun
    · intro hdeep
      cases hdeep
      exact hrun rfl
    · exact nofun

/-- A function that calls itself for ever, on a machine that allows one call. -/
theorem runText_endless_call :
    let limits : Limits := { calls := 1, evaluations := 513 }
    let m := ((standard limits {}).runText "func f() \x7b return f(); \x7d").2
    257 * limits.calls + 256 ≤ limits.evaluations ∧ ReachableByTexts limits m ∧
      ∀ limit, (m.runText "var x = f();").1 ≠ .error (.runtime (.tooDeep .evaluation limit)) := by
  intro limits m
  have hlimits : 257 * limits.calls + 256 ≤ limits.evaluations := by decide
  have hm : ReachableByTexts limits m := .runText _ (.fresh Builtins.standard {})
  exact ⟨hlimits, hm, fun limit => runText_ne_tooDeep_evaluation hlimits hm _ limit⟩

end Machine

end Scriptlet
