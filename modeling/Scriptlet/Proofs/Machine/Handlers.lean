-- SUMMARY: Two faults of evaluation that programs which were read from texts never come to.
import Scriptlet.Proofs.Machine.Bindings
import Scriptlet.Proofs.Machine.Builtins
import Scriptlet.Proofs.Machine.Fuel
import Scriptlet.Proofs.Parse.Shallow

/-!
# Faults that never arise

A parameter may be bound under a name that is bound already, and the value of an
expression may be called; evaluation fails in both cases. Here it is made to do anything
else there. The parser lets no function have two parameters of one name, and no call be
of anything but a name. So for programs that were read nothing changes, however
evaluation goes on in those cases: it never comes to them.
-/
namespace Scriptlet

open Scriptlet.Action Semantics

namespace Eval

/-- What is done where a parameter has the name of one that is bound, and where a value is called. -/
structure Handlers where
  rebound (param : String) : Eval Unit
  valueCalled (v : Value) : Eval Value

/-! ## Evaluation with handlers -/

namespace Handlers

variable (h : Handlers)

/-- Binds a parameter in the scope of the active call. -/
def bindParam (x : String) (v : Value) : Eval Unit := do
  if (← get).frames.head?.any (·.contains x) then h.rebound x else declare x v .mutable

/-- Binds parameters to arguments, and then to the values of their defaults. -/
def bindParams (eval : Expr → Eval Value) : List Param → List Value → Eval Unit
  | [], _ => return ()
  | p :: ps, v :: vs => do
    h.bindParam p.ident v
    bindParams eval ps vs
  | ⟨x, some e⟩ :: ps, [] => do
    h.bindParam x (← eval e)
    bindParams eval ps []
  | ⟨_, none⟩ :: ps, [] => bindParams eval ps []

/-- Runs a function in the scope of its call. -/
def enter (eval : Expr → Eval Value) (f : Function) (args : List Value) : Eval Value := do
  h.bindParams eval (params f) args
  body eval f.body

/-- Evaluates an expression, given how to evaluate those in it and how to call a function. -/
def node (eval : Expr → Eval Value) (call : Function → List Value → Eval Value) :
    Expr → Eval Value
  | .call (.name x) args => namedCall eval call x args
  | .call callee _ => do h.valueCalled (← eval callee)
  | e => Eval.node eval call e

mutual

/-- Evaluates an expression. -/
def expr : (fuel : Nat) → Expr → Eval Value
  | 0, _ => nested (throw .starved)
  | fuel + 1, e => nested (h.node (expr fuel) (call fuel) e)

/-- Calls a function. -/
def call : (fuel : Nat) → Function → List Value → Eval Value
  | 0, f, args => do
    allowCall f args
    nested (throw .starved)
  | fuel + 1, f, args => do
    allowCall f args
    nested (inFrame (h.enter (expr fuel) f args))

end

/-- Evaluates what a global variable begins with, with the fuel that the machine's limits allow. -/
def initialValue : Option Expr → Eval Value
  | some e => do h.expr (← get).levelsLeft e
  | none => return .null

/-- Evaluates and declares global variables. -/
def globals : List Decl → Eval Unit
  | [] => return ()
  | d :: ds =>
    match global? d with
    | none => globals ds
    | some g => do
      let v ← h.initialValue g.initial
      update (·.declareGlobal g.ident v g.mutability)
      globals ds

/-- Carries out a program's declarations. -/
def program (p : Program) : Eval Unit := do
  functions p.functions
  h.globals p.decls

/-- The faults that evaluation raises. -/
def faults : Handlers where
  rebound x := fail (.alreadyDeclared x)
  valueCalled v := fail (.type (.valueCalled v.ty))

end Handlers

/-! ## With the faults as handlers -/

section

variable {eval : Expr → Eval Value} {call : Function → List Value → Eval Value}

/-- A call that is allowed has arguments that its function accepts. -/
theorem allowCall_bind_congr {f : Function} {vs : List Value} {x y : Eval Value}
    (hxy : accepts f.minArgs f.maxArgs vs.length → x = y) :
    (allowCall f vs >>= fun _ => x) = allowCall f vs >>= fun _ => y := by
  funext m
  change (allowCall f vs >>= fun _ => x).runOn m = (allowCall f vs >>= fun _ => y).runOn m
  have hallow := runOn_allowCall f vs m
  split at hallow
  · next ha => rw [hxy ha]
  · rw [runOn_bind_error hallow, runOn_bind_error hallow]

theorem bindParam_faults (x : String) (v : Value) :
    Handlers.faults.bindParam x v = declare x v .mutable := by
  funext m
  change (Handlers.faults.bindParam x v).runOn m = (declare x v .mutable).runOn m
  rw [Handlers.bindParam, runOn_bind_ok (runOn_get m)]
  split
  · next hbound =>
    cases hframes : m.frames with
    | nil => simp [hframes] at hbound
    | cons scope others =>
      have hx : scope.contains x = true := by simpa [hframes] using hbound
      rw [declare, runOn_update, Machine.declare_local hframes, Scope.declare, if_pos hx]
      rfl
  · rfl

theorem bindParams_faults (ps : List Param) (vs : List Value) :
    Handlers.faults.bindParams eval ps vs = bindAll eval ps vs := by
  fun_induction bindAll eval ps vs with
  | case1 vs => rfl
  | case2 p ps v vs ih => rw [Handlers.bindParams, bindParam_faults, ih]
  | case3 x e ps ih => simp only [Handlers.bindParams, bindParam_faults, ih]
  | case4 x ps ih => rw [Handlers.bindParams, ih]

theorem node_faults (e : Expr) : Handlers.faults.node eval call e = node eval call e := by
  fun_cases Handlers.node Handlers.faults eval call e with
  | case1 => rfl
  | case2 callee args hcallee =>
    cases callee with
    | name x => exact absurd rfl (hcallee x)
    | _ => rfl
  | case3 => rfl

theorem levels_faults (n : Nat) :
    Handlers.faults.expr n = expr n ∧ Handlers.faults.call n = Eval.call n := by
  induction n with
  | zero => exact ⟨rfl, rfl⟩
  | succ n ih =>
    obtain ⟨hexpr, hcall⟩ := ih
    refine ⟨funext fun e => ?_, funext fun f => funext fun vs => ?_⟩
    · rw [Handlers.expr, hexpr, hcall, node_faults, expr]
    · rw [Handlers.call, Eval.call]
      refine allowCall_bind_congr fun ha => ?_
      rw [Handlers.enter, hexpr, bindParams_faults, enter_eq_bindAll _ ha]

theorem globals_faults (ds : List Decl) : Handlers.faults.globals ds = globals ds := by
  induction ds with
  | nil => rfl
  | cons d ds ih =>
    cases hd : global? d with
    | none => rw [Handlers.globals, hd, globals_cons_func hd, ih]
    | some g =>
      have hinitial : Handlers.faults.initialValue g.initial = initialValue g.initial := by
        cases g.initial with
        | none => rfl
        | some e => simp only [Handlers.initialValue, initialValue, value, levels_faults]
      simp only [Handlers.globals, hd, globals_cons hd, hinitial, ih]

/-- With the faults that evaluation raises as handlers, evaluation is what it is. -/
theorem program_faults (p : Program) : Handlers.faults.program p = program p := by
  rw [Handlers.program, globals_faults, program]

end

end Eval

/-! ## Functions that were read -/

/-- The parameters have names of their own, and whatever the function calls is a name. -/
structure Function.Regular (f : Function) : Prop where
  params : f.params.Nodup
  callsNames : ∀ e ∈ f.exprs, e.CallsNames

/-- All functions of the table are regular. -/
def Table.Regular (t : Table Function) : Prop := ∀ x f, t.get? x = some f → f.Regular

theorem Semantics.map_ident_params (f : Function) : (params f).map Param.ident = f.params := by
  simp [params, Function.params, Function.comp_def]

theorem Function.Regular.default {f : Function} (h : f.Regular) {p : Param}
    (hp : p ∈ Semantics.params f) : ∀ e ∈ p.default, e.CallsNames := by
  intro e he
  rw [Semantics.params, List.mem_append, List.mem_map, List.mem_map] at hp
  obtain ⟨x, -, rfl⟩ | ⟨o, ho, rfl⟩ := hp
  · cases he
  · cases he
    exact h.callsNames _ (List.mem_append_left _ (List.mem_map_of_mem ho))

theorem Function.Regular.value {f : Function} (h : f.Regular) {s : Stmt} (hs : s ∈ f.body) :
    s.value.CallsNames := h.callsNames _ (List.mem_append_right _ (List.mem_map_of_mem hs))

theorem Program.regular_of_ofText {text : String} {p : Program} (h : ofText text = .ok p) :
    ∀ f ∈ p.functions, f.Regular := fun f hf =>
  ⟨params_nodup_of_ofText h f hf, fun e he =>
    (shallow_of_ofText h e (exprs_subset_of_mem_functions hf he)).callsNames⟩

/-! ## Steps -/

/-- Did the evaluation end because a value was called? -/
def Halt.IsValueCalled : Halt → Prop
  | .error (.type (.valueCalled _)) => True
  | _ => False

namespace Machine

/-- The step leaves the functions as they are, and fails for another reason than that a value was
called. -/
def TameStep (m : Machine) (result : Except RuntimeError Machine) : Prop :=
  (∀ m', result = .ok m' → m'.functions = m.functions) ∧
    ∀ e, result = .error e → ¬ (Halt.error e).IsValueCalled

variable (m : Machine) (x : String) (v : Value) (mutability : Mutability)

theorem tameStep_declare : m.TameStep (m.declare x v mutability) := by
  refine ⟨fun m' h => ?_, fun e h => ?_⟩
  · obtain ⟨globals, frames, rfl⟩ := Eval.exists_eq_of_declare h
    rfl
  · unfold declare Scope.declare at h
    split at h <;> split at h <;> cases h <;> exact id

theorem tameStep_assign : m.TameStep (m.assign x v) := by
  refine ⟨fun m' h => ?_, fun e h => ?_⟩
  · obtain ⟨globals, frames, rfl⟩ := Eval.exists_eq_of_assign h
    rfl
  · obtain ⟨fault, -, rfl⟩ := mapError_eq_error.mp h
    cases fault <;> exact id

theorem tameStep_declareGlobal : m.TameStep (m.declareGlobal x v mutability) := by
  refine ⟨fun m' h => ?_, fun e h => ?_⟩
  · obtain ⟨-, rfl⟩ := declareGlobal_eq_ok_iff.mp h
    rfl
  · unfold declareGlobal Scope.declare at h
    split at h
    · cases h
      exact id
    · split at h <;> cases h
      exact id

end Machine

namespace Eval

/-! ## Evaluation of what was read -/

variable {α β : Type}

/-- From the machine, the actions do the same. They leave the functions as they are, and do not end
because a value was called. -/
structure ConcurAt (x y : Eval α) (m : Machine) : Prop where
  same : x.runOn m = y.runOn m
  functions : (y.runOn m).2.functions = m.functions
  halt : ∀ k, (y.runOn m).1 = .error k → ¬ k.IsValueCalled

/-- The actions concur on all machines with these functions. -/
def Concur (t : Table Function) (x y : Eval α) : Prop := ∀ m, m.functions = t → ConcurAt x y m

variable {t : Table Function} {m : Machine} {x y : Eval α} {f g : α → Eval β}

theorem ConcurAt.bind (hxy : ConcurAt x y m)
    (hfg : ∀ a m', y.runOn m = (.ok a, m') → m'.functions = m.functions → ConcurAt (f a) (g a) m') :
    ConcurAt (x >>= f) (y >>= g) m := by
  obtain ⟨hsame, hfunctions, hhalt⟩ := hxy
  rcases hrun : y.runOn m with ⟨k | a, m'⟩ <;> rw [hrun] at hsame hfunctions hhalt
  · refine ⟨?_, ?_, ?_⟩ <;> simp only [runOn_bind_error hsame, runOn_bind_error hrun]
    · exact hfunctions
    · exact fun k' hk' => hhalt k' (congrArg _ (Except.error.inj hk'))
  · obtain ⟨hsame', hfunctions', hhalt'⟩ := hfg a m' hrun hfunctions
    refine ⟨?_, ?_, ?_⟩ <;> simp only [runOn_bind_ok hsame, runOn_bind_ok hrun]
    · exact hsame'
    · exact hfunctions'.trans hfunctions
    · exact hhalt'

theorem concurAt_of_run {r : Except Halt α} (hrun : x.runOn m = (r, m))
    (hr : ∀ k, r = .error k → ¬ k.IsValueCalled) : ConcurAt x x m :=
  ⟨rfl, by rw [hrun], by rw [hrun]; exact hr⟩

theorem concurAt_of_fault {e : RuntimeError} (hrun : x.runOn m = (.error (.error e), m))
    (he : ¬ (Halt.error e).IsValueCalled) : ConcurAt x x m :=
  concurAt_of_run hrun fun _ hk => Except.error.inj hk ▸ he

theorem concur_pure (a : α) : Concur t (pure a : Eval α) (pure a) :=
  fun m _ => concurAt_of_run (runOn_pure a m) nofun

theorem chaining_concur (t : Table Function) : Chaining fun _ => Concur t where
  pure := concur_pure
  bind hxy hfg m hm := (hxy m hm).bind fun a m' _ hm' => hfg a m' (hm'.trans hm)

theorem concur_fail {e : RuntimeError} (he : ¬ (Halt.error e).IsValueCalled) :
    Concur t (fail e : Eval α) (fail e) :=
  fun m _ => concurAt_of_fault (runOn_fail e m) he

theorem concur_lift {result : Except RuntimeError α}
    (h : ∀ e, result = .error e → ¬ (Halt.error e).IsValueCalled) :
    Concur t (lift result) (lift result) := by
  cases result with
  | ok a => exact concur_pure a
  | error e => exact concur_fail (h e rfl)

theorem concur_update {step : Machine → Except RuntimeError Machine}
    (h : ∀ m : Machine, m.TameStep (step m)) : Concur t (update step) (update step) := by
  intro m _
  obtain ⟨hok, herror⟩ := h m
  have hrun := runOn_update step m
  cases hs : step m with
  | ok m' =>
    rw [hs] at hrun
    exact ⟨rfl, by rw [hrun]; exact hok m' hs, by rw [hrun]; exact nofun⟩
  | error e =>
    rw [hs] at hrun
    exact concurAt_of_fault hrun (herror e hs)

theorem concur_resolve (z : String) : Concur t (resolve z) (resolve z) := by
  refine fun m _ => concurAt_of_run (runOn_resolve z m) fun k hk => ?_
  unfold Machine.resolve at hk
  split at hk
  · cases hk
  · cases hk
    split <;> exact id

theorem concur_unary (op : UnaryOp) (v : Value) : Concur t (lift (op.apply v)) (lift (op.apply v)) := by
  refine concur_lift fun e he => ?_
  unfold UnaryOp.apply at he
  split at he <;> cases he
  exact id

theorem concur_binary (op : BinaryOp) (u v : Value) :
    Concur t (lift (op.apply u v)) (lift (op.apply u v)) := by
  refine concur_lift fun e he => ?_
  unfold BinaryOp.apply at he
  split at he
  · split at he <;> cases he
    exact id
  · split at he
    · split at he <;> cases he
      exact id
    · cases he
      exact id

theorem isValueCalled_haltOf {r : Except BuiltinError Value} {k : Halt}
    (hr : ∀ ty, r ≠ .error (.type (.valueCalled ty))) (hk : r.mapError haltOf = .error k) :
    ¬ k.IsValueCalled := by
  obtain ⟨e, rfl, rfl⟩ := mapError_eq_error.mp hk
  cases e with
  | type te =>
    cases te with
    | valueCalled ty => exact absurd rfl (hr ty)
    | _ => exact id
  | _ => exact id

theorem carryOut_ne_valueCalled (r : Routine) (vs : List Value) (s : Sink) (ty : Value.Ty) :
    ((r.carryOut vs).runOn s).1 ≠ .error (.type (.valueCalled ty)) := by
  have houtput (text : String) (s : Sink) :
      ((Routine.output text).runOn s).1 ≠ .error (.type (.valueCalled ty)) := by
    rw [Routine.runOn_output]
    rcases (Sink.write text).runOn s with ⟨e | _, _⟩ <;> rintro ⟨⟩
  fun_cases Routine.carryOut r vs with
  | case4 v vs e he =>
    rintro ⟨⟩
    unfold Routine.statusOf at he
    split at he
    · cases he
    · split at he <;> cases he
  | case5 v vs => exact houtput _ s
  | case6 v vs =>
    have hfirst := houtput v.display s
    rw [runOn_bind]
    rcases hrun : (Routine.output v.display).runOn s with ⟨e | a, s'⟩ <;> rw [hrun] at hfirst
    · exact hfirst
    · exact houtput _ s'
  | _ => rintro ⟨⟩

theorem concur_callBuiltin (b : Builtin) (vs : List Value) :
    Concur t (callBuiltin b vs) (callBuiltin b vs) := by
  intro m _
  have hrun := runOn_callBuiltin b vs m m.world
  change (callBuiltin b vs).runOn m = _ at hrun
  split at hrun
  · rw [carryOut_eq] at hrun
    refine ⟨rfl, by rw [hrun]; rfl, fun k hk => ?_⟩
    rw [hrun] at hk
    exact isValueCalled_haltOf (carryOut_ne_valueCalled b.routine vs m.world.sink) hk
  · exact concurAt_of_fault hrun id

theorem concur_allowCall (f : Function) (vs : List Value) :
    Concur t (allowCall f vs) (allowCall f vs) := by
  intro m _
  have hrun := runOn_allowCall f vs m
  split at hrun
  · split at hrun
    · exact concurAt_of_fault hrun id
    · exact concurAt_of_run hrun nofun
  · exact concurAt_of_fault hrun id

theorem Concur.nested (hxy : Concur t x y) : Concur t (Eval.nested x) (Eval.nested y) := by
  intro m hm
  obtain ⟨hsame, hfunctions, hhalt⟩ := hxy { m with depth := m.depth + 1 } hm
  by_cases hfull : m.limits.evaluations ≤ m.depth
  · refine ⟨?_, ?_, ?_⟩ <;> simp only [runOn_nested_full hfull]
    rintro k ⟨⟩
    exact id
  · refine ⟨?_, ?_, ?_⟩ <;> simp only [runOn_nested, if_neg hfull, hsame]
    · exact hfunctions
    · exact hhalt

theorem ConcurAt.inFrame (hxy : ConcurAt x y (m.inCall ({}, m.world))) :
    ConcurAt (Eval.inFrame x) (Eval.inFrame y) m := by
  obtain ⟨hsame, hfunctions, hhalt⟩ := hxy
  change x.runOn { m with frames := {} :: m.frames } = _ at hsame
  refine ⟨?_, hfunctions, hhalt⟩
  rw [runOn_inFrame, runOn_inFrame, hsame]
  rfl

/-! ### Calls -/

section

variable {h : Handlers} {eval eval' : Expr → Eval Value}
  {call call' : Function → List Value → Eval Value}

theorem concur_settle (s : Stmt) (v : Value) : Concur t (settle s v) (settle s v) := by
  cases s with
  | const z e =>
    exact (chaining_concur t).bind (concur_update fun m => m.tameStep_declare z v .constant) fun _ =>
      concur_pure none
  | var z e =>
    exact (chaining_concur t).bind (concur_update fun m => m.tameStep_declare z v .mutable) fun _ =>
      concur_pure none
  | assign z e =>
    exact (chaining_concur t).bind (concur_update fun m => m.tameStep_assign z v) fun _ =>
      concur_pure none
  | ret e => exact concur_pure (some v)
  | expr e => exact concur_pure none

theorem concur_body {ss : List Stmt} (heval : ∀ s ∈ ss, Concur t (eval' s.value) (eval s.value)) :
    Concur t (body eval' ss) (body eval ss) := by
  induction ss with
  | nil => exact concur_pure Value.null
  | cons s ss ih =>
    obtain ⟨hs, hss⟩ := List.forall_mem_cons.mp heval
    rw [body_cons, body_cons]
    refine (chaining_concur t).bind hs fun v =>
      (chaining_concur t).bind (concur_settle s v) fun returned => ?_
    cases returned with
    | some v => exact concur_pure v
    | none => exact ih hss

/-- Where the name of a parameter is free, it is declared. -/
theorem concurAt_bindParam (z : String) (v : Value) {ρ : Scope} (w : World)
    (hz : ρ.contains z = false) :
    ConcurAt (h.bindParam z v) (declare z v .mutable) (m.inCall (ρ, w)) ∧
      (declare z v .mutable).runOn (m.inCall (ρ, w)) =
        (.ok (), m.inCall (ρ.insert z ⟨v, .mutable⟩, w)) := by
  have hdeclare : (declare z v .mutable).runOn (m.inCall (ρ, w)) =
      (.ok (), m.inCall (ρ.insert z ⟨v, .mutable⟩, w)) := by
    rw [runOn_declare, Scope.declare, if_neg (by simp [hz])]
  refine ⟨⟨?_, ?_, ?_⟩, hdeclare⟩
  · rw [Handlers.bindParam, runOn_bind_ok (runOn_get _), if_neg (by simp [hz])]
  · rw [hdeclare]
    rfl
  · rw [hdeclare]
    rintro _ ⟨⟩

/-- In the scope of a call, where the parameters have names of their own that are free, none of them
has one that is bound. -/
theorem concurAt_bindParams (heval : ∀ e, ChangesWorld (eval e)) {ps : List Param}
    (hdefaults : ∀ p ∈ ps, ∀ e ∈ p.default, Concur t (eval' e) (eval e))
    (hnodup : (ps.map Param.ident).Nodup) (hm : m.functions = t) {ρ : Scope} {w : World}
    (hfree : ∀ p ∈ ps, ρ.contains p.ident = false) (vs : List Value) :
    ConcurAt (h.bindParams eval' ps vs) (bindAll eval ps vs) (m.inCall (ρ, w)) := by
  have hrest {p : Param} {ps : List Param} (hnodup : ((p :: ps).map Param.ident).Nodup)
      {ρ : Scope} (hfree : ∀ q ∈ p :: ps, ρ.contains q.ident = false) (v : Value) :
      ∀ q ∈ ps, (ρ.insert p.ident ⟨v, .mutable⟩).contains q.ident = false := by
    intro q hq
    have hne : q.ident ≠ p.ident := fun heq =>
      (List.nodup_cons.mp hnodup).1 (heq ▸ List.mem_map_of_mem hq)
    rw [Table.contains_insert, hfree q (List.mem_cons_of_mem _ hq)]
    simp [hne]
  fun_induction bindAll eval ps vs generalizing ρ w with
  | case1 vs => exact concur_pure () _ hm
  | case2 p ps v vs ih =>
    obtain ⟨hbind, hrun⟩ := concurAt_bindParam (h := h) (m := m) p.ident v w
      (hfree p List.mem_cons_self)
    refine hbind.bind fun _ m' hm' _ => ?_
    rw [hrun] at hm'
    cases hm'
    exact ih (fun q hq => hdefaults q (List.mem_cons_of_mem _ hq)) (List.nodup_cons.mp hnodup).2
      (hrest hnodup hfree v)
  | case3 x e ps ih =>
    have he := hdefaults _ List.mem_cons_self e rfl
    rw [Handlers.bindParams]
    refine (he (m.inCall (ρ, w)) hm).bind fun v m' hm' _ => ?_
    obtain ⟨w', hw, -⟩ := (heval e).exists_eq (m.inCall (ρ, w))
    rw [hm'] at hw
    obtain rfl : m' = m.inCall (ρ, w') := hw
    obtain ⟨hbind, hrun⟩ := concurAt_bindParam (h := h) (m := m) x v w'
      (hfree _ List.mem_cons_self)
    refine hbind.bind fun _ m' hm' _ => ?_
    rw [hrun] at hm'
    cases hm'
    exact ih (fun q hq => hdefaults q (List.mem_cons_of_mem _ hq)) (List.nodup_cons.mp hnodup).2
      (hrest hnodup hfree v)
  | case4 x ps ih =>
    exact ih (fun q hq => hdefaults q (List.mem_cons_of_mem _ hq)) (List.nodup_cons.mp hnodup).2
      fun q hq => hfree q (List.mem_cons_of_mem _ hq)

theorem concurAt_enter {f : Function} (hf : f.Regular)
    (heval : ∀ e, ChangesWorld (eval e)) (hexpr : ∀ e, e.CallsNames → Concur t (eval' e) (eval e))
    (hm : m.functions = t) {vs : List Value} (hvs : accepts f.minArgs f.maxArgs vs.length)
    (w : World) : ConcurAt (h.enter eval' f vs) (enter eval f vs) (m.inCall ({}, w)) := by
  rw [enter_eq_bindAll eval hvs, Handlers.enter]
  refine (concurAt_bindParams heval (fun p hp e he => hexpr e (hf.default hp e he)) ?_ hm
    (fun _ _ => rfl) vs).bind fun _ m' _ hm' => ?_
  · rw [map_ident_params]
    exact hf.params
  · exact concur_body (fun s hs => hexpr _ (hf.value hs)) m' (hm'.trans hm)

/-! ### Expressions -/

theorem concur_namedCall (ht : t.Regular) (z : String) {es : List Expr}
    (heval : ∀ e ∈ es, Concur t (eval' e) (eval e))
    (hcall : ∀ f : Function, f.Regular → ∀ vs, Concur t (call' f vs) (call f vs)) :
    Concur t (namedCall eval' call' z es) (namedCall eval call z es) := by
  have hlist := (chaining_concur t).list heval
  intro m hm
  have hcallee : ConcurAt (callee z) (callee z) m := by
    refine concurAt_of_run (runOn_callee z m) fun k hk => ?_
    obtain ⟨e, he, rfl⟩ := mapError_eq_error.mp hk
    unfold Machine.callee at he
    split at he
    · cases he
    · cases he
    · split at he <;> cases he <;> exact id
  rw [namedCall_eq_callee, namedCall_eq_callee]
  refine hcallee.bind fun found m' hrun hm' => ?_
  cases found with
  | inl f =>
    rw [runOn_callee, Prod.mk.injEq] at hrun
    obtain ⟨hfound, rfl⟩ := hrun
    have hget : t.get? z = some f := hm ▸ Machine.get?_of_callee (mapError_eq_ok.mp hfound)
    exact (chaining_concur t).bind hlist (hcall f (ht z f hget)) m hm
  | inr b => exact (chaining_concur t).bind hlist (concur_callBuiltin b) m' (hm'.trans hm)

theorem concur_node (ht : t.Regular) (hexpr : ∀ e, e.CallsNames → Concur t (eval' e) (eval e))
    (hcall : ∀ f : Function, f.Regular → ∀ vs, Concur t (call' f vs) (call f vs)) {e : Expr}
    (he : e.CallsNames) : Concur t (h.node eval' call' e) (node eval call e) := by
  cases e with
  | null | int n | float z | string s => exact concur_pure _
  | name z => exact concur_resolve z
  | unary op e => exact (chaining_concur t).bind (hexpr e he) fun v => concur_unary op v
  | binary op a b =>
    exact (chaining_concur t).bind (hexpr a he.1) fun u =>
      (chaining_concur t).bind (hexpr b he.2) fun v => concur_binary op u v
  | call callee es =>
    obtain ⟨⟨z, rfl⟩, hes⟩ := he
    exact concur_namedCall ht z (fun e he => hexpr e (hes.mem e he).1) hcall

/-- Where whatever is called is a name, and functions have parameters with names of their own, the
handlers make no difference. -/
theorem concur_levels (h : Handlers) (ht : t.Regular) (n : Nat) :
    (∀ e, e.CallsNames → Concur t (h.expr n e) (expr n e)) ∧
      ∀ f : Function, f.Regular → ∀ vs, Concur t (h.call n f vs) (Eval.call n f vs) := by
  have hstarved : Concur t (throw .starved : Eval Value) (throw .starved) := by
    refine fun m _ => concurAt_of_run (runOn_throw _ m) fun k hk => ?_
    cases hk
    exact id
  induction n with
  | zero =>
    exact ⟨fun e _ => hstarved.nested, fun f _ vs =>
      (chaining_concur t).bind (concur_allowCall f vs) fun _ => hstarved.nested⟩
  | succ n ih =>
    obtain ⟨hexpr, hcall⟩ := ih
    refine ⟨fun e he => (concur_node ht hexpr hcall he).nested, fun f hf vs m hm => ?_⟩
    refine (concur_allowCall f vs m hm).bind fun _ m' hrun hm' => ?_
    have hvs : accepts f.minArgs f.maxArgs vs.length := by
      rw [runOn_allowCall] at hrun
      split at hrun
      · assumption
      · cases hrun
    have hframe : Concur t (Eval.inFrame (h.enter (h.expr n) f vs)) (Eval.inFrame (enter (expr n) f vs)) :=
      fun m hm => (concurAt_enter hf (changesWorld_eval n).1 hexpr hm hvs m.world).inFrame
    exact hframe.nested m' (hm'.trans hm)

/-! ### Programs -/

theorem concur_initialValue (h : Handlers) (ht : t.Regular) {e? : Option Expr}
    (he : ∀ e ∈ e?, e.CallsNames) : Concur t (h.initialValue e?) (initialValue e?) := by
  cases e? with
  | none => exact concur_pure Value.null
  | some e =>
    intro m hm
    obtain ⟨hsame, hfunctions, hhalt⟩ := (concur_levels h ht m.levelsLeft).1 e (he e rfl) m hm
    exact ⟨hsame, hfunctions, hhalt⟩

theorem mem_exprs_of_global? {d : Decl} {g : Global} (hd : global? d = some g) :
    ∀ e ∈ g.initial, e ∈ d.exprs := by
  cases d with
  | func f => cases hd
  | const z e =>
    cases hd
    rintro _ ⟨⟩
    exact List.mem_singleton_self e
  | var z e? =>
    cases hd
    exact fun e he => Option.mem_toList.mpr he

theorem concur_globals (h : Handlers) (ht : t.Regular) {ds : List Decl}
    (hds : ∀ d ∈ ds, ∀ e ∈ d.exprs, e.CallsNames) : Concur t (h.globals ds) (globals ds) := by
  induction ds with
  | nil => exact concur_pure ()
  | cons d ds ih =>
    obtain ⟨hd, hds⟩ := List.forall_mem_cons.mp hds
    cases hg : global? d with
    | none =>
      rw [globals_cons_func hg, Handlers.globals, hg]
      exact ih hds
    | some g =>
      have hinitial : ∀ e ∈ g.initial, e.CallsNames := fun e he =>
        hd e (mem_exprs_of_global? hg e he)
      rw [globals_cons hg, Handlers.globals, hg]
      exact (chaining_concur t).bind (concur_initialValue h ht hinitial) fun v =>
        (chaining_concur t).bind
          (concur_update fun m => m.tameStep_declareGlobal g.ident v g.mutability) fun _ => ih hds

end

end Eval

/-! ## Sessions -/

theorem Table.Regular.insert {t : Table Function} (ht : t.Regular) {f : Function} (hf : f.Regular)
    (x : String) : (t.insert x f).Regular := by
  intro y g hg
  rw [Table.get?_insert] at hg
  split at hg
  · cases hg
    exact hf
  · exact ht y g hg

namespace Eval

theorem runOn_functions_regular {fs : List Function} (hfs : ∀ f ∈ fs, f.Regular) {m m' : Machine}
    (hm : m.functions.Regular) {r : Except Halt Unit} (hrun : (functions fs).runOn m = (r, m')) :
    m'.functions.Regular ∧ ∀ k, r = .error k → ¬ k.IsValueCalled := by
  induction fs generalizing m with
  | nil =>
    cases hrun
    exact ⟨hm, nofun⟩
  | cons f fs ih =>
    obtain ⟨hf, hfs⟩ := List.forall_mem_cons.mp hfs
    have hdeclare := runOn_update (·.declareFunction f) m
    rw [Eval.functions] at hrun
    by_cases hfree : m.isTaken f.ident = false
    · rw [runOn_bind_ok (Machine.runOn_declareFunction_free hfree)] at hrun
      exact ih hfs (hm.insert hf f.ident) hrun
    · have htaken : m.declareFunction f = .error (.alreadyDeclared f.ident) := by
        rw [Machine.declareFunction, if_pos (by simpa using hfree)]
      rw [htaken] at hdeclare
      rw [runOn_bind_error hdeclare] at hrun
      cases hrun
      refine ⟨hm, fun k hk => ?_⟩
      cases hk
      exact id

/-- With functions that were read, a program that was read does the same whatever the handlers are.
It leaves functions that were read, and does not end because a value was called. -/
theorem program_handlers (h : Handlers) {m : Machine} (hm : m.functions.Regular) {p : Program}
    (hfunctions : ∀ f ∈ p.functions, f.Regular) (hexprs : ∀ e ∈ p.exprs, e.CallsNames) :
    (h.program p).runOn m = (program p).runOn m ∧ ((program p).runOn m).2.functions.Regular ∧
      ∀ k, ((program p).runOn m).1 = .error k → ¬ k.IsValueCalled := by
  have hds : ∀ d ∈ p.decls, ∀ e ∈ d.exprs, e.CallsNames := fun d hd e he =>
    hexprs e (List.mem_flatMap.mpr ⟨d, hd, he⟩)
  rw [Handlers.program, program]
  rcases hrun : (Eval.functions p.functions).runOn m with ⟨k | _, m'⟩
  all_goals obtain ⟨hm', hk⟩ := runOn_functions_regular hfunctions hm hrun
  · simp only [runOn_bind_error hrun]
    exact ⟨trivial, hm', fun k' hk' => hk k' (congrArg _ (Except.error.inj hk'))⟩
  · simp only [runOn_bind_ok hrun]
    obtain ⟨hsame, hfunctions, hhalt⟩ := concur_globals h hm' hds m' rfl
    exact ⟨hsame, hfunctions ▸ hm', hhalt⟩

end Eval

theorem Machine.ReachableByTexts.regular {limits : Limits} {m : Machine}
    (hm : ReachableByTexts limits m) : m.functions.Regular := by
  induction hm with
  | fresh builtins sink => exact nofun
  | redirect sink _ ih => exact ih
  | @runText m text _ ih =>
    unfold Machine.runText
    split
    · exact ih
    · next p hp =>
      have hexprs : ∀ e ∈ p.exprs, e.CallsNames := fun e he =>
        (Program.shallow_of_ofText hp e he).callsNames
      have hprogram := (Eval.program_handlers .faults ih (Program.regular_of_ofText hp) hexprs).2.1
      have hrun : (m.run p).2.functions = ((Eval.program p).runOn m).2.functions := by
        rw [run_snd]
        rfl
      rw [hrun]
      exact hprogram

namespace Eval

/-- No function that was read has two parameters of one name, and programs that were read call names
only. So in a session whose programs are all read from texts, evaluation does the same whatever is done
where a parameter has a name that is bound, or where a value is called: it never comes there. -/
theorem program_ofText_handlers {limits : Limits} {m : Machine}
    (hm : m.ReachableByTexts limits) {text : String} {p : Program} (hp : Program.ofText text = .ok p) :
    (∀ f ∈ p.functions, f.params.Nodup) ∧ (∀ e ∈ p.exprs, e.CallsNames) ∧
    (∀ ty, ((program p).runOn m).1 ≠ .error (.error (.type (.valueCalled ty)))) ∧
    Handlers.faults.program p = program p ∧
    ∀ h : Handlers, (h.program p).runOn m = (program p).runOn m := by
  have hfunctions := Program.regular_of_ofText hp
  have hexprs : ∀ e ∈ p.exprs, e.CallsNames := fun e he =>
    (Program.shallow_of_ofText hp e he).callsNames
  have hprogram (h : Handlers) := program_handlers h hm.regular hfunctions hexprs
  exact ⟨fun f hf => (hfunctions f hf).params, hexprs,
    fun ty hty => (hprogram .faults).2.2 _ hty trivial, program_faults p, fun h => (hprogram h).1⟩

set_option maxRecDepth 4000 in
/-- In a second program of a session, a call of a function of the first one whose second parameter gets
its default, which makes another call. -/
theorem program_ofText_handlers_default :
    let m := ((Machine.standard {} {}).runText
      "func f(a, b = g(a)) \x7b return a + b; \x7d func g(a) \x7b return a; \x7d").2
    ∃ p, m.ReachableByTexts {} ∧ Program.ofText "var x = f(1);" = .ok p ∧
      ∀ h : Handlers, (h.program p).runOn m = (program p).runOn m := by
  intro m
  have hm : m.ReachableByTexts {} := .runText _ (.fresh _ _)
  have hp : Program.ofText "var x = f(1);" =
      .ok ⟨[.var "x" (some (.call (.name "f") [.int 1]))]⟩ := by cbv
  exact ⟨_, hm, hp, (program_ofText_handlers hm hp).2.2.2.2⟩

end Eval

end Scriptlet
