-- SUMMARY: Relations between actions that evaluation keeps: what the steps of the machine do, every run does.
import Scriptlet.Proofs.Idents
import Scriptlet.Proofs.Machine.Steps

/-!
# Simulations

Two evaluations of one program are compared by a relation between actions. The
relation has to hold of the steps of the machine, each with itself, and has to be
kept when actions are put in sequence, nested one level deeper, or given a scope of
their own. Then it holds of the whole evaluations, because nothing else happens
in them.

A property of single actions is a relation that looks at one side only. A relation may
also depend on names: then it is kept by the evaluation of what has only those names.
-/
namespace Scriptlet

/-- What a name stands for when it is called: a function, or else a builtin. -/
def Machine.callee (m : Machine) (x : String) : Except RuntimeError (Function ⊕ Builtin) :=
  match m.functions.get? x, m.builtins.get? x with
  | some f, _ => .ok (.inl f)
  | none, some b => .ok (.inr b)
  | none, none =>
    match m.resolve x with
    | .ok _ => .error (.type (.variableCalled x))
    | .error _ => .error (.unresolved x)

theorem Machine.get?_of_callee {m : Machine} {x : String} {f : Function}
    (h : m.callee x = .ok (.inl f)) : m.functions.get? x = some f := by
  unfold callee at h
  split at h
  · next hf =>
    cases h
    exact hf
  · cases h
  · split at h <;> cases h

namespace Eval

open Scriptlet.Action

/-- A relation between actions that return the same kind of thing. -/
abbrev Relation := ∀ ⦃α : Type⦄, Eval α → Eval α → Prop

/-! ## Sequences -/

/-- A relation that is kept when actions are put one after another. -/
structure Chaining (R : Relation) : Prop where
  pure {α : Type} (a : α) : R (pure a) (pure a)
  bind {α β : Type} {x y : Eval α} {f g : α → Eval β} :
    R x y → (∀ a, R (f a) (g a)) → R (x >>= f) (y >>= g)

/-- A relation that moreover relates each fault to itself. -/
structure Sequential (R : Relation) : Prop extends Chaining R where
  fail {α : Type} (e : RuntimeError) : R (fail e : Eval α) (fail e)

/-- Looks up a name that is called. -/
def callee (x : String) : Eval (Function ⊕ Builtin) := do lift ((← get).callee x)

@[simp] theorem runOn_callee (x : String) (m : Machine) :
    (callee x).runOn m = ((m.callee x).mapError .error, m) := by
  simp only [callee, runOn_bind, runOn_get, runOn_lift]

/-- The name is looked up once, before the arguments are evaluated. -/
theorem namedCall_eq_callee (eval : Expr → Eval Value) (call : Function → List Value → Eval Value)
    (x : String) (es : List Expr) :
    namedCall eval call x es = callee x >>= fun
      | .inl f => list eval es >>= call f
      | .inr b => list eval es >>= callBuiltin b := by
  rw [callee, bind_assoc, namedCall]
  congr 1
  funext m
  rw [Machine.callee]
  cases m.functions.get? x with
  | some f => rfl
  | none =>
    cases m.builtins.get? x with
    | some b => rfl
    | none => cases m.resolve x <;> rfl

/-- Functions that do the same when they are called, whatever the arguments are. -/
def Interchangeable (f g : Function) : Prop := ∀ fuel, Eval.call fuel g = Eval.call fuel f

theorem Interchangeable.refl (f : Function) : Interchangeable f f := fun _ => rfl

variable {R : Relation} {eval eval' : Expr → Eval Value}

theorem Sequential.lift {α : Type} (hR : Sequential R) (result : Except RuntimeError α) :
    R (lift result) (lift result) := by
  cases result with
  | ok a => exact hR.pure a
  | error e => exact hR.fail e

theorem Chaining.list (hR : Chaining R) {es : List Expr} (heval : ∀ e ∈ es, R (eval e) (eval' e)) :
    R (list eval es) (list eval' es) := by
  induction es with
  | nil => exact hR.pure []
  | cons e es ih =>
    obtain ⟨he, hes⟩ := List.forall_mem_cons.mp heval
    exact hR.bind he fun v => hR.bind (ih hes) fun vs => hR.pure (v :: vs)

/-! ## Evaluations within some names -/

/-- Relations that the evaluation of what is within the names `N` keeps, as long as only the builtins
`B` are found by those names: `R n` between expressions and calls that are evaluated with fuel for `n`
levels, and `S n` between the statements of a call. -/
structure SimulationOn (N : String → Prop) (B : Builtin → Prop) (R S : Nat → Relation) : Prop where
  expressions (n : Nat) : Chaining (R n)
  statements (n : Nat) : Chaining (S n)
  /-- An expression may be a part of a statement. -/
  expression {n : Nat} {α : Type} {x y : Eval α} : R n x y → S n x y
  resolve (n : Nat) {x : String} (hx : N x) : R n (resolve x) (resolve x)
  unary (n : Nat) (op : UnaryOp) (v : Value) : R n (lift (op.apply v)) (lift (op.apply v))
  binary (n : Nat) (op : BinaryOp) (u v : Value) : R n (lift (op.apply u v)) (lift (op.apply u v))
  valueCalled (n : Nat) (ty : Value.Ty) :
    R n (fail (.type (.valueCalled ty)) : Eval Value) (fail (.type (.valueCalled ty)))
  /-- A name is looked up, and what was found is called. The two sides may find functions that do the
  same. -/
  called {n : Nat} {x : String} (hx : N x) {f g : Function ⊕ Builtin → Eval Value}
    (hsame : ∀ h k : Function, Interchangeable h k → g (.inl k) = g (.inl h))
    (hfunction : ∀ h : Function, h.Within N → R n (f (.inl h)) (g (.inl h)))
    (hbuiltin : ∀ b, B b → R n (f (.inr b)) (g (.inr b))) : R n (callee x >>= f) (callee x >>= g)
  callBuiltin (n : Nat) {b : Builtin} (hb : B b) (vs : List Value) :
    R n (callBuiltin b vs) (callBuiltin b vs)
  allowCall (n : Nat) (f : Function) (vs : List Value) : R n (allowCall f vs) (allowCall f vs)
  declare (n : Nat) {x : String} (hx : N x) (v : Value) (mutability : Mutability) :
    S n (declare x v mutability) (declare x v mutability)
  assign (n : Nat) {x : String} (hx : N x) (v : Value) : S n (assign x v) (assign x v)
  nested {n : Nat} {α : Type} {x y : Eval α} : R n x y → R (n + 1) (nested x) (nested y)
  inFrame {n : Nat} {α : Type} {x y : Eval α} : S n x y → R n (inFrame x) (inFrame y)

namespace SimulationOn

variable {N : String → Prop} {B : Builtin → Prop} {R S : Nat → Relation} {n : Nat}
  {eval eval' : Expr → Eval Value} {call call' : Function → List Value → Eval Value}

/-! ### Functions -/

theorem stmt (h : SimulationOn N B R S) (heval : ∀ e : Expr, e.Within N → R n (eval e) (eval' e))
    {s : Stmt} (hs : s.Within N) : S n (stmt eval s) (stmt eval' s) := by
  have heval (e : Expr) (he : e.Within N) : S n (eval e) (eval' e) := h.expression (heval e he)
  have hS := h.statements n
  cases s with
  | const x e =>
    obtain ⟨hx, he⟩ := List.forall_mem_cons.mp hs
    exact hS.bind (heval e he) fun v => hS.bind (h.declare n hx v .constant) fun _ => hS.pure none
  | var x e =>
    obtain ⟨hx, he⟩ := List.forall_mem_cons.mp hs
    exact hS.bind (heval e he) fun v => hS.bind (h.declare n hx v .mutable) fun _ => hS.pure none
  | assign x e =>
    obtain ⟨hx, he⟩ := List.forall_mem_cons.mp hs
    exact hS.bind (heval e he) fun v => hS.bind (h.assign n hx v) fun _ => hS.pure none
  | ret e =>
    simp only [Eval.stmt, map_eq_pure_bind]
    exact hS.bind (heval e hs) fun v => hS.pure (some v)
  | expr e => exact hS.bind (heval e hs) fun _ => hS.pure none

theorem body (h : SimulationOn N B R S) (heval : ∀ e : Expr, e.Within N → R n (eval e) (eval' e))
    {ss : List Stmt} (hss : ∀ s ∈ ss, s.Within N) : S n (body eval ss) (body eval' ss) := by
  have hS := h.statements n
  induction ss with
  | nil => exact hS.pure Value.null
  | cons s ss ih =>
    obtain ⟨hs, hss⟩ := List.forall_mem_cons.mp hss
    refine hS.bind (h.stmt heval hs) fun returned => ?_
    cases returned with
    | some v => exact hS.pure v
    | none => exact ih hss

theorem bindRequired (h : SimulationOn N B R S) {xs : List String} (hxs : ∀ x ∈ xs, N x)
    (vs : List Value) : S n (bindRequired xs vs) (bindRequired xs vs) := by
  induction xs generalizing vs with
  | nil => exact (h.statements n).pure vs
  | cons x xs ih =>
    obtain ⟨hx, hxs⟩ := List.forall_mem_cons.mp hxs
    cases vs with
    | nil => exact (h.statements n).pure []
    | cons v vs => exact (h.statements n).bind (h.declare n hx v .mutable) fun _ => ih hxs vs

theorem bindOptional (h : SimulationOn N B R S)
    (heval : ∀ e : Expr, e.Within N → R n (eval e) (eval' e)) {os : List OptionalParam}
    (hos : ∀ o ∈ os, o.Within N) (vs : List Value) :
    S n (bindOptional eval os vs) (bindOptional eval' os vs) := by
  have hS := h.statements n
  induction os generalizing vs with
  | nil => exact hS.pure ()
  | cons o os ih =>
    obtain ⟨ho, hos⟩ := List.forall_mem_cons.mp hos
    obtain ⟨hx, he⟩ := OptionalParam.within_iff.mp ho
    cases vs with
    | nil =>
      exact hS.bind (h.expression (heval o.default he)) fun v =>
        hS.bind (h.declare n hx v .mutable) fun _ => ih hos []
    | cons v vs => exact hS.bind (h.declare n hx v .mutable) fun _ => ih hos vs

theorem enter (h : SimulationOn N B R S) (heval : ∀ e : Expr, e.Within N → R n (eval e) (eval' e))
    {f : Function} (hf : f.Within N) (vs : List Value) :
    S n (enter eval f vs) (enter eval' f vs) :=
  (h.statements n).bind (h.bindRequired hf.parts.required vs) fun others =>
    (h.statements n).bind (h.bindOptional heval hf.parts.optional others) fun _ =>
      h.body heval hf.parts.body

/-! ### Expressions -/

theorem namedCall (h : SimulationOn N B R S)
    (heval : ∀ e : Expr, e.Within N → R n (eval e) (eval' e))
    (hsame : ∀ f g : Function, Interchangeable f g → call' g = call' f)
    (hcall : ∀ f : Function, f.Within N → ∀ vs, R n (call f vs) (call' f vs)) {x : String}
    (hx : N x) {es : List Expr} (hes : ∀ e ∈ es, e.Within N) :
    R n (namedCall eval call x es) (namedCall eval' call' x es) := by
  have hR := h.expressions n
  have hlist := hR.list fun e he => heval e (hes e he)
  rw [namedCall_eq_callee, namedCall_eq_callee]
  exact h.called hx (fun f g hfg => congrArg (list eval' es >>= ·) (hsame f g hfg))
    (fun f hf => hR.bind hlist (hcall f hf)) fun b hb => hR.bind hlist (h.callBuiltin n hb)

theorem node (h : SimulationOn N B R S) (heval : ∀ e : Expr, e.Within N → R n (eval e) (eval' e))
    (hsame : ∀ f g : Function, Interchangeable f g → call' g = call' f)
    (hcall : ∀ f : Function, f.Within N → ∀ vs, R n (call f vs) (call' f vs)) {e : Expr}
    (he : e.Within N) : R n (node eval call e) (node eval' call' e) := by
  have hR := h.expressions n
  cases e with
  | null | int k | float z | string s => exact hR.pure _
  | name x => exact h.resolve n (Expr.within_name.mp he)
  | unary op e => exact hR.bind (heval e (Expr.within_unary.mp he)) fun v => h.unary n op v
  | binary op a b =>
    obtain ⟨ha, hb⟩ := Expr.within_binary.mp he
    exact hR.bind (heval a ha) fun u => hR.bind (heval b hb) fun v => h.binary n op u v
  | call callee es =>
    obtain ⟨hcallee, hes⟩ := Expr.within_call.mp he
    cases callee with
    | name x => exact h.namedCall heval hsame hcall (Expr.within_name.mp hcallee) hes
    | _ => exact hR.bind (heval _ hcallee) fun v => h.valueCalled n v.ty

/-! ### All levels -/

/-- What holds of evaluations that have no fuel left on one side, and fuel for `j` levels on the
other, holds at all levels above. -/
theorem levels (h : SimulationOn N B R S) {j : Nat}
    (hexpr : ∀ e : Expr, e.Within N → R 0 (expr 0 e) (expr j e))
    (hcall : ∀ f : Function, f.Within N → ∀ vs, R 0 (Eval.call 0 f vs) (Eval.call j f vs))
    (n : Nat) :
    (∀ e : Expr, e.Within N → R n (expr n e) (expr (j + n) e)) ∧
      ∀ f : Function, f.Within N → ∀ vs, R n (Eval.call n f vs) (Eval.call (j + n) f vs) := by
  induction n with
  | zero => exact ⟨hexpr, hcall⟩
  | succ n ih =>
    constructor
    · exact fun e he => h.nested (h.node ih.1 (fun _ _ hfg => hfg (j + n)) ih.2 he)
    · exact fun f hf vs => (h.expressions (n + 1)).bind (h.allowCall (n + 1) f vs) fun _ =>
        h.nested (h.inFrame (h.enter ih.1 hf vs))

/-- With the same fuel on both sides. -/
theorem levels_same (h : SimulationOn N B R S)
    (hstarved : R 0 (Eval.nested (throw .starved) : Eval Value) (Eval.nested (throw .starved)))
    (n : Nat) :
    (∀ e : Expr, e.Within N → R n (expr n e) (expr n e)) ∧
      ∀ f : Function, f.Within N → ∀ vs, R n (Eval.call n f vs) (Eval.call n f vs) := by
  have hcall (f : Function) (_ : f.Within N) (vs : List Value) :
      R 0 (Eval.call 0 f vs) (Eval.call 0 f vs) :=
    (h.expressions 0).bind (h.allowCall 0 f vs) fun _ => hstarved
  simpa only [Nat.zero_add] using h.levels (j := 0) (fun _ _ => hstarved) hcall n

end SimulationOn

/-! ## Evaluations -/

/-- Relations that evaluation keeps: `R n` between expressions and calls that are evaluated with
fuel for `n` levels, and `S n` between the statements of a call. -/
structure Simulation (R S : Nat → Relation) : Prop where
  expressions (n : Nat) : Sequential (R n)
  statements (n : Nat) : Sequential (S n)
  /-- An expression may be a part of a statement. -/
  expression {n : Nat} {α : Type} {x y : Eval α} : R n x y → S n x y
  resolve (n : Nat) (x : String) : R n (resolve x) (resolve x)
  callee (n : Nat) (x : String) : R n (callee x) (callee x)
  callBuiltin (n : Nat) (b : Builtin) (vs : List Value) : R n (callBuiltin b vs) (callBuiltin b vs)
  allowCall (n : Nat) (f : Function) (vs : List Value) : R n (allowCall f vs) (allowCall f vs)
  declare (n : Nat) (x : String) (v : Value) (mutability : Mutability) :
    S n (declare x v mutability) (declare x v mutability)
  assign (n : Nat) (x : String) (v : Value) : S n (assign x v) (assign x v)
  nested {n : Nat} {α : Type} {x y : Eval α} : R n x y → R (n + 1) (nested x) (nested y)
  inFrame {n : Nat} {α : Type} {x y : Eval α} : S n x y → R n (inFrame x) (inFrame y)

namespace Simulation

variable {R S : Nat → Relation} {n : Nat}

/-- Whatever names and builtins there are. -/
theorem on (h : Simulation R S) : SimulationOn (fun _ => True) (fun _ => True) R S where
  expressions n := (h.expressions n).toChaining
  statements n := (h.statements n).toChaining
  expression := h.expression
  resolve n x _ := h.resolve n x
  unary n op v := (h.expressions n).lift (op.apply v)
  binary n op u v := (h.expressions n).lift (op.apply u v)
  valueCalled n _ := (h.expressions n).fail _
  called {n x} _ f g _ hfunction hbuiltin := (h.expressions n).bind (h.callee n x) fun called => by
    cases called with
    | inl f => exact hfunction f f.within_true
    | inr b => exact hbuiltin b trivial
  callBuiltin n b _ := h.callBuiltin n b
  allowCall := h.allowCall
  declare n x _ := h.declare n x
  assign n x _ := h.assign n x
  nested := h.nested
  inFrame := h.inFrame

theorem levels (h : Simulation R S) {j : Nat} (hexpr : ∀ e, R 0 (expr 0 e) (expr j e))
    (hcall : ∀ f vs, R 0 (Eval.call 0 f vs) (Eval.call j f vs)) (n : Nat) :
    (∀ e, R n (expr n e) (expr (j + n) e)) ∧
      ∀ f vs, R n (Eval.call n f vs) (Eval.call (j + n) f vs) := by
  obtain ⟨he, hf⟩ := h.on.levels (fun e _ => hexpr e) (fun f _ => hcall f) n
  exact ⟨fun e => he e e.within_true, fun f => hf f f.within_true⟩

theorem levels_same (h : Simulation R S)
    (hstarved : R 0 (Eval.nested (throw .starved) : Eval Value) (Eval.nested (throw .starved)))
    (n : Nat) :
    (∀ e, R n (expr n e) (expr n e)) ∧ ∀ f vs, R n (Eval.call n f vs) (Eval.call n f vs) := by
  obtain ⟨he, hf⟩ := h.on.levels_same hstarved n
  exact ⟨fun e => he e e.within_true, fun f => hf f f.within_true⟩

theorem node_same (h : Simulation R S)
    (hstarved : R 0 (Eval.nested (throw .starved) : Eval Value) (Eval.nested (throw .starved)))
    (n : Nat) (e : Expr) :
    R n (Eval.node (expr n) (Eval.call n) e) (Eval.node (expr n) (Eval.call n) e) :=
  h.on.node (fun e _ => (h.levels_same hstarved n).1 e) (fun _ _ hfg => hfg n)
    (fun f _ => (h.levels_same hstarved n).2 f) e.within_true

theorem enter_same (h : Simulation R S)
    (hstarved : R 0 (Eval.nested (throw .starved) : Eval Value) (Eval.nested (throw .starved)))
    (n : Nat) (f : Function) (vs : List Value) :
    S n (Eval.enter (expr n) f vs) (Eval.enter (expr n) f vs) :=
  h.on.enter (fun e _ => (h.levels_same hstarved n).1 e) f.within_true vs

end Simulation

/-! ## Programs -/

/-- A relation that the declarations of variables within the names `N` keep. -/
structure VariableSimulationOn (N : String → Prop) (R : Relation) : Prop extends Chaining R where
  value (e : Expr) : e.Within N → R (value e) (value e)
  declareGlobal (x : String) (v : Value) (mutability : Mutability) :
    N x → R (update (·.declareGlobal x v mutability)) (update (·.declareGlobal x v mutability))

theorem VariableSimulationOn.globals {N : String → Prop} {R : Relation}
    (h : VariableSimulationOn N R) {ds : List Decl} (hds : ∀ d ∈ ds, d.Within N) :
    R (globals ds) (globals ds) := by
  induction ds with
  | nil => exact h.pure ()
  | cons d ds ih =>
    obtain ⟨hd, hrest⟩ := List.forall_mem_cons.mp hds
    cases d with
    | const x e =>
      obtain ⟨hx, he⟩ := List.forall_mem_cons.mp hd
      exact h.bind (h.value e he) fun v => h.bind (h.declareGlobal x v .constant hx) fun _ => ih hrest
    | var x e? =>
      cases e? with
      | none =>
        have hx := List.forall_mem_singleton.mp hd
        exact h.bind (h.pure Value.null) fun v =>
          h.bind (h.declareGlobal x v .mutable hx) fun _ => ih hrest
      | some e =>
        obtain ⟨hx, he⟩ := List.forall_mem_cons.mp hd
        exact h.bind (h.value e he) fun v =>
          h.bind (h.declareGlobal x v .mutable hx) fun _ => ih hrest
    | func f => exact ih hrest

/-- A relation that the declarations of a program within the names `N` keep. -/
structure ProgramSimulationOn (N : String → Prop) (R : Relation) : Prop
    extends VariableSimulationOn N R where
  declareFunction (f : Function) :
    f.Within N → R (update (·.declareFunction f)) (update (·.declareFunction f))

namespace ProgramSimulationOn

variable {N : String → Prop} {R : Relation}

theorem functions (h : ProgramSimulationOn N R) {fs : List Function}
    (hfs : ∀ f ∈ fs, f.Within N) : R (functions fs) (functions fs) := by
  induction fs with
  | nil => exact h.pure ()
  | cons f fs ih =>
    obtain ⟨hf, hfs⟩ := List.forall_mem_cons.mp hfs
    exact h.bind (h.declareFunction f hf) fun _ => ih hfs

theorem program (h : ProgramSimulationOn N R) {p : Program} (hp : p.Within N) :
    R (Eval.program p) (Eval.program p) :=
  h.bind (h.functions hp.functions) fun _ => h.globals hp.decls

end ProgramSimulationOn

/-- A relation that the declarations of a program keep. -/
structure ProgramSimulation (R : Relation) : Prop extends Sequential R where
  value (e : Expr) : R (value e) (value e)
  declareFunction (f : Function) :
    R (update (·.declareFunction f)) (update (·.declareFunction f))
  declareGlobal (x : String) (v : Value) (mutability : Mutability) :
    R (update (·.declareGlobal x v mutability)) (update (·.declareGlobal x v mutability))

namespace ProgramSimulation

variable {R : Relation}

/-- Whatever names there are. -/
theorem on (h : ProgramSimulation R) : ProgramSimulationOn (fun _ => True) R where
  toChaining := h.toChaining
  value e _ := h.value e
  declareFunction f _ := h.declareFunction f
  declareGlobal x v mutability _ := h.declareGlobal x v mutability

theorem functions (h : ProgramSimulation R) (fs : List Function) : R (functions fs) (functions fs) :=
  h.on.functions fun f _ => f.within_true

theorem globals (h : ProgramSimulation R) (ds : List Decl) : R (globals ds) (globals ds) :=
  h.on.globals fun d _ => d.within_true

theorem program (h : ProgramSimulation R) (p : Program) :
    R (Eval.program p) (Eval.program p) :=
  h.on.program p.within_true

end ProgramSimulation

end Eval

end Scriptlet
