-- SUMMARY: Every evaluation that ends before a limit of the machine is one that the rules derive.
import Scriptlet.Proofs.Machine.Steps
import Scriptlet.Proofs.Semantics

/-!
# Soundness of the machine

The machine keeps a stack of scopes and counts how deep it is. Seen from one
call, all of that stays as it is: an evaluation moves the machine only to one
with another world, and the statements of a call change its own scope besides.
`Follows` says so of an action, together with what the action did, which is what
a rule allows unless a limit ended it.
-/
namespace Scriptlet

open Semantics

namespace Machine

/-- What names of functions stand for on the machine. -/
def callables (m : Machine) : Callables := ⟨m.builtins, m.functions⟩

/-- What an evaluation on the machine may change. -/
def world (m : Machine) : World := ⟨m.globals, m.sink⟩

/-- The machine in another world. -/
def withWorld (m : Machine) (w : World) : Machine := { m with globals := w.globals, sink := w.sink }

/-- The machine with one more call active, whose variables and world are given. -/
def inCall (m : Machine) (s : Scope × World) : Machine :=
  { m.withWorld s.2 with frames := s.1 :: m.frames }

@[simp] theorem frames_withWorld (m : Machine) (w : World) :
    (m.withWorld w).frames = m.frames := rfl

@[simp] theorem frames_inCall (m : Machine) (s : Scope × World) :
    (m.inCall s).frames = s.1 :: m.frames := rfl

/-- A name has the same value on the machine and in the rules. -/
theorem resolve_eq_read (m : Machine) (ident : String) :
    m.resolve ident = read m.callables m.frames.head? m.world ident := rfl

theorem declare_inCall (m : Machine) (ρ : Scope) (w : World) (ident : String) (v : Value)
    (mutability : Mutability) :
    (m.inCall (ρ, w)).declare ident v mutability =
      (ρ.declare ident v mutability).map fun ρ => m.inCall (ρ, w) := by
  simp only [declare, frames_inCall]
  cases ρ.declare ident v mutability <;> rfl

theorem assign_inCall (m : Machine) (ρ : Scope) (w : World) (ident : String) (v : Value) :
    (m.inCall (ρ, w)).assign ident v = (Semantics.assign ρ w ident v).map m.inCall := by
  simp only [assign, Semantics.assign, frames_inCall]
  split
  · cases ρ.assign ident v <;> rfl
  · change Except.mapError _ (do
      let globals ← w.globals.assign ident v
      pure { m.inCall (ρ, w) with globals }) = _
    cases w.globals.assign ident v <;> rfl

end Machine

namespace Semantics

open Scriptlet.Action Eval

variable {α β σ : Type}

/-! ## Ending at a limit -/

/-- Did the machine's limits or its fuel end an evaluation? -/
def atLimit : Result α → Bool
  | .error (.error (.tooDeep _ _)) | .error .starved => true
  | _ => false

theorem atLimit_error_cast (h : Halt) :
    atLimit (.error h : Result α) = atLimit (.error h : Result β) := by
  cases h with
  | error e => cases e <;> rfl
  | _ => rfl

/-! ## Following the rules -/

/-- From `m`, the action ends in one of the machines `move s`, and as `R` allows unless at a
limit. -/
def Follows (x : Eval α) (m : Machine) (move : σ → Machine) (R : Result α → σ → Prop) : Prop :=
  ∃ r s, x.runOn m = (r, move s) ∧ (atLimit r = false → R r s)

namespace Follows

variable {x : Eval α} {m : Machine} {move : σ → Machine} {R : Result α → σ → Prop}

theorem of_run {r : Result α} {s : σ} (h : x.runOn m = (r, move s)) (hR : R r s) :
    Follows x m move R :=
  ⟨r, s, h, fun _ => hR⟩

theorem of_atLimit {r : Result α} {s : σ} (h : x.runOn m = (r, move s)) (hr : atLimit r = true) :
    Follows x m move R :=
  ⟨r, s, h, fun hr' => by simp [hr] at hr'⟩

theorem bind {f : α → Eval β} {S : Result β → σ → Prop} (hx : Follows x m move R)
    (hok : ∀ a s, R (.ok a) s → Follows (f a) (move s) move S)
    (herror : ∀ h s, R (.error h) s → S (.error h) s) : Follows (x >>= f) m move S := by
  obtain ⟨r, s, hrun, hR⟩ := hx
  cases r with
  | ok a =>
    obtain ⟨r, t, hrun', hS⟩ := hok a s (hR rfl)
    exact ⟨r, t, (runOn_bind_ok hrun).trans hrun', hS⟩
  | error h =>
    refine ⟨.error h, s, runOn_bind_error hrun, fun hr => herror h s (hR ?_)⟩
    rwa [atLimit_error_cast (β := β)]

theorem congr {y : Eval α} {m' : Machine} (h : x.runOn m = y.runOn m') (hy : Follows y m' move R) :
    Follows x m move R := by
  obtain ⟨r, s, hrun, hR⟩ := hy
  exact ⟨r, s, h.trans hrun, hR⟩

theorem mono {S : Result α → σ → Prop} (hx : Follows x m move R) (h : ∀ r s, R r s → S r s) :
    Follows x m move S := by
  obtain ⟨r, s, hrun, hR⟩ := hx
  exact ⟨r, s, hrun, fun hr => h r s (hR hr)⟩

theorem nested {R : Result α → World → Prop} {m' : Machine}
    (hm : m' = { m with depth := m.depth + 1 }) (hx : Follows x m' m'.withWorld R) :
    Follows (Eval.nested x) m m.withWorld R := by
  subst hm
  obtain ⟨r, w, hrun, hR⟩ := hx
  have hnested := runOn_nested x m
  split at hnested
  · exact of_atLimit (s := m.world) hnested rfl
  · rw [hrun] at hnested
    exact ⟨r, w, hnested, hR⟩

theorem inFrame {R : Result α → World → Prop}
    (hx : Follows x (m.inCall ({}, m.world)) m.inCall fun r s => R r s.2) :
    Follows (Eval.inFrame x) m m.withWorld R := by
  obtain ⟨r, s, hrun, hR⟩ := hx
  have hrun' : x.runOn { m with frames := {} :: m.frames } = (r, m.inCall s) := hrun
  refine ⟨r, s.2, ?_, hR⟩
  rw [runOn_inFrame, hrun']
  rfl

/-- An expression of a statement or a default changes the world only. -/
theorem inCall {R : Result α → World → Prop} {s : Scope × World}
    (hx : Follows x (m.inCall s) (m.inCall s).withWorld R) :
    Follows x (m.inCall s) m.inCall fun r t => t.1 = s.1 ∧ R r t.2 := by
  obtain ⟨r, w, hrun, hR⟩ := hx
  exact ⟨r, (s.1, w), hrun, fun hr => ⟨rfl, hR hr⟩⟩

end Follows

/-! ## Statements and parameters -/

theorem runOn_declare (m : Machine) (ρ : Scope) (w : World) (ident : String) (v : Value)
    (mutability : Mutability) :
    (Eval.declare ident v mutability).runOn (m.inCall (ρ, w)) =
      match ρ.declare ident v mutability with
      | .ok ρ => (.ok (), m.inCall (ρ, w))
      | .error e => (.error (.error e), m.inCall (ρ, w)) := by
  rw [Eval.declare, runOn_update, Machine.declare_inCall]
  cases ρ.declare ident v mutability <;> rfl

theorem runOn_assign (m : Machine) (ρ : Scope) (w : World) (ident : String) (v : Value) :
    (Eval.assign ident v).runOn (m.inCall (ρ, w)) =
      match assign ρ w ident v with
      | .ok s => (.ok (), m.inCall s)
      | .error e => (.error (.error e), m.inCall (ρ, w)) := by
  rw [Eval.assign, runOn_update, Machine.assign_inCall]
  cases assign ρ w ident v <;> rfl

/-- What a statement does once its expression has a value. -/
def settle (s : Stmt) (v : Value) : Eval (Option Value) :=
  match s with
  | .const ident _ => do
    declare ident v .constant
    return none
  | .var ident _ => do
    declare ident v .mutable
    return none
  | .assign ident _ => do
    Eval.assign ident v
    return none
  | .ret _ => return some v
  | .expr _ => return none

theorem stmt_eq_settle (eval : Expr → Eval Value) (s : Stmt) :
    stmt eval s = eval s.value >>= settle s := by
  cases s with
  | ret e => exact map_eq_pure_bind _ _
  | const | var | assign | expr => rfl

/-- What a body does after a statement. -/
def carryOn (eval : Expr → Eval Value) (ss : List Stmt) : Option Value → Eval Value
  | some v => return v
  | none => body eval ss

theorem body_cons (eval : Expr → Eval Value) (s : Stmt) (ss : List Stmt) :
    body eval (s :: ss) =
      eval s.value >>= fun v => settle s v >>= carryOn eval ss :=
  calc body eval (s :: ss) = stmt eval s >>= carryOn eval ss := rfl
    _ = _ := by rw [stmt_eq_settle, bind_assoc]

theorem runOn_settle_returned {s : Stmt} (hs : returns s = true) (v : Value) (m : Machine) :
    (settle s v).runOn m = (.ok (some v), m) := by
  cases s with
  | ret e => rfl
  | _ => cases hs

theorem runOn_settle {s : Stmt} (hs : returns s = false) (v : Value) (m : Machine) (ρ : Scope)
    (w : World) :
    (settle s v).runOn (m.inCall (ρ, w)) =
      match effect s v ρ w with
      | .ok t => (.ok none, m.inCall t)
      | .error e => (.error (.error e), m.inCall (ρ, w)) := by
  cases s with
  | const ident e =>
    simp only [settle, effect, runOn_bind, runOn_declare]
    cases ρ.declare ident v .constant <;> rfl
  | var ident e =>
    simp only [settle, effect, runOn_bind, runOn_declare]
    cases ρ.declare ident v .mutable <;> rfl
  | assign ident e =>
    simp only [settle, effect, runOn_bind, runOn_assign]
    cases assign ρ w ident v <;> rfl
  | ret e => cases hs
  | expr e => rfl

/-- An evaluator of expressions that follows the rules on every machine. -/
def SoundEval (eval : Expr → Eval Value) : Prop :=
  ∀ e m, Follows (eval e) m m.withWorld (Evaluates m.callables m.frames.head? m.world e)

/-- An evaluator of calls that follows the rules on every machine. -/
def SoundCall (call : Function → List Value → Eval Value) : Prop :=
  ∀ f vs m, Follows (call f vs) m m.withWorld (Calls m.callables m.world f vs)

variable {eval : Expr → Eval Value} {call : Function → List Value → Eval Value}

theorem SoundEval.inCall (heval : SoundEval eval) (e : Expr) (m : Machine) (ρ : Scope) (w : World) :
    Follows (eval e) (m.inCall (ρ, w)) m.inCall
      fun r t => t.1 = ρ ∧ Evaluates m.callables (some ρ) w e r t.2 :=
  (heval e (m.inCall (ρ, w))).inCall

theorem body_follows (heval : SoundEval eval) (m : Machine) (ss : List Stmt) (ρ : Scope)
    (w : World) :
    Follows (body eval ss) (m.inCall (ρ, w)) m.inCall
      fun r t => Executes m.callables ρ w ss r t.2 := by
  induction ss generalizing ρ w with
  | nil => exact .of_run (s := (ρ, w)) rfl .done
  | cons s ss ih =>
    rw [body_cons]
    refine Follows.bind (heval.inCall s.value m ρ w) ?_ fun h t hR => Executes.halt hR.2
    rintro v ⟨ρ, w₁⟩ ⟨rfl, hv⟩
    cases hs : returns s with
    | true =>
      refine .of_run ?_ (.returned hs hv)
      rw [runOn_bind_ok (runOn_settle_returned hs v _)]
      rfl
    | false =>
      have hsettle := runOn_settle hs v m ρ w₁
      cases heffect : effect s v ρ w₁ with
      | error e =>
        rw [heffect] at hsettle
        exact .of_run (runOn_bind_error hsettle) (.fault hs hv heffect)
      | ok t =>
        rw [heffect] at hsettle
        obtain ⟨r, u, hrun, hR⟩ := ih t.1 t.2
        exact ⟨r, u, (runOn_bind_ok hsettle).trans hrun, fun hr => .next hs hv heffect (hR hr)⟩

/-- Binds required and optional parameters in one loop. -/
def bindAll (eval : Expr → Eval Value) : List Param → List Value → Eval Unit
  | [], _ => return ()
  | p :: ps, v :: vs => do
    declare p.ident v .mutable
    bindAll eval ps vs
  | ⟨x, some e⟩ :: ps, [] => do
    declare x (← eval e) .mutable
    bindAll eval ps []
  | ⟨_, none⟩ :: ps, [] => bindAll eval ps []

theorem bindOptional_eq_bindAll (eval : Expr → Eval Value) (os : List OptionalParam)
    (vs : List Value) :
    bindOptional eval os vs = bindAll eval (os.map fun p => ⟨p.ident, some p.default⟩) vs := by
  induction os generalizing vs with
  | nil => rfl
  | cons p os ih =>
    cases vs with
    | nil => simp only [bindOptional, List.map_cons, bindAll, ih]
    | cons v vs => simp only [bindOptional, List.map_cons, bindAll, ih]

theorem bindRequired_eq_bindAll (eval : Expr → Eval Value) (os : List OptionalParam)
    {xs : List String} {vs : List Value} (hvs : xs.length ≤ vs.length) :
    bindRequired xs vs >>= bindOptional eval os =
      bindAll eval (xs.map (⟨·, none⟩) ++ os.map fun p => ⟨p.ident, some p.default⟩) vs := by
  induction xs generalizing vs with
  | nil => exact bindOptional_eq_bindAll eval os vs
  | cons x xs ih =>
    cases vs with
    | nil => simp at hvs
    | cons v vs =>
      have hlength : xs.length ≤ vs.length := by simpa using hvs
      have hrest := ih hlength
      simp only [bindRequired, bind_assoc, List.map_cons, List.cons_append, bindAll, hrest]

theorem enter_eq_bindAll (eval : Expr → Eval Value) {f : Function} {vs : List Value}
    (hvs : accepts f.minArgs f.maxArgs vs.length) :
    enter eval f vs = bindAll eval (params f) vs >>= fun _ => body eval f.body := by
  rw [params, ← bindRequired_eq_bindAll eval f.optional hvs.1, bind_assoc]
  rfl

/-- Parameters that are left without an argument have defaults. -/
theorem default_isSome_of_accepts {f : Function} {vs : List Value}
    (hvs : accepts f.minArgs f.maxArgs vs.length) :
    ∀ p ∈ (params f).drop vs.length, p.default.isSome := by
  have hrequired : f.required.length ≤ vs.length := hvs.1
  intro p hp
  rw [params, List.drop_append, List.drop_eq_nil_of_le (by simpa using hrequired)] at hp
  obtain ⟨o, -, rfl⟩ := List.mem_map.1 (List.mem_of_mem_drop hp)
  rfl

theorem bindAll_follows (heval : SoundEval eval) (m : Machine) (ps : List Param) (vs : List Value)
    (hps : ∀ p ∈ ps.drop vs.length, p.default.isSome) (ρ : Scope) (w : World) :
    Follows (bindAll eval ps vs) (m.inCall (ρ, w)) m.inCall fun r t =>
      Binds m.callables ρ w ps vs (r.map fun _ => t.1) t.2 := by
  induction ps generalizing vs ρ w with
  | nil => exact .of_run (s := (ρ, w)) rfl .done
  | cons p ps ih =>
    cases vs with
    | cons v vs =>
      have hdeclare := runOn_declare m ρ w p.ident v .mutable
      cases hρ : ρ.declare p.ident v .mutable with
      | error e =>
        rw [hρ] at hdeclare
        exact .of_run (runOn_bind_error hdeclare) (.argumentFault hρ)
      | ok ρ₁ =>
        rw [hρ] at hdeclare
        exact Follows.congr (runOn_bind_ok hdeclare)
          ((ih vs hps ρ₁ w).mono fun r t hR => .argument hρ hR)
    | nil =>
      obtain ⟨x, _ | e⟩ := p
      · simpa using hps _ List.mem_cons_self
      refine Follows.bind (heval.inCall e m ρ w) ?_ fun h t hR => Binds.defaultHalt hR.2
      rintro v ⟨ρ, w₁⟩ ⟨rfl, hv⟩
      have hdeclare := runOn_declare m ρ w₁ x v .mutable
      cases hρ : ρ.declare x v .mutable with
      | error e =>
        rw [hρ] at hdeclare
        exact .of_run (runOn_bind_error hdeclare) (.defaultFault hv hρ)
      | ok ρ₁ =>
        rw [hρ] at hdeclare
        have hrest := ih [] (fun p hp => hps p (List.mem_cons_of_mem _ hp)) ρ₁ w₁
        exact Follows.congr (runOn_bind_ok hdeclare)
          (hrest.mono fun r t hR => .default hv hρ hR)

theorem enter_follows (heval : SoundEval eval) (m : Machine) (f : Function) (vs : List Value)
    (hvs : accepts f.minArgs f.maxArgs vs.length) :
    Follows (inFrame (enter eval f vs)) m m.withWorld (Calls m.callables m.world f vs) := by
  refine Follows.inFrame ?_
  rw [enter_eq_bindAll eval hvs]
  refine Follows.bind (bindAll_follows heval m (params f) vs (default_isSome_of_accepts hvs) {}
    m.world) ?_ fun h t hR => Calls.bindHalt hvs hR
  rintro ⟨⟩ ⟨ρ, w₁⟩ hbinds
  exact (body_follows heval m f.body ρ w₁).mono fun r t hR => .body hvs hbinds hR

/-! ## Expressions -/

theorem list_follows (heval : SoundEval eval) (m : Machine) (es : List Expr) (w : World) :
    Follows (list eval es) (m.withWorld w) m.withWorld
      (EvaluatesAll m.callables m.frames.head? w es) := by
  induction es generalizing w with
  | nil => exact .of_run (s := w) rfl .nil
  | cons e es ih =>
    refine Follows.bind (heval e (m.withWorld w)) ?_ fun h t hR => EvaluatesAll.headHalt hR
    intro v w₁ hv
    refine Follows.bind (ih w₁) ?_ fun h t hR => EvaluatesAll.tailHalt hv hR
    intro vs w₂ hvs
    exact .of_run (s := w₂) rfl (.cons hv hvs)

theorem runOn_callBuiltin (b : Builtin) (vs : List Value) (m : Machine) (w : World) :
    (callBuiltin b vs).runOn (m.withWorld w) =
      if b.least ≤ vs.length ∧ vs.length ≤ b.greatest then
        ((carryOut b vs w).1, m.withWorld (carryOut b vs w).2)
      else (.error (.error (.arity b.ident b.least b.greatest vs.length)), m.withWorld w) := by
  rw [callBuiltin, runOn_bind, runOn_checkArity]
  by_cases ha : b.least ≤ vs.length ∧ vs.length ≤ b.greatest
  · have hsink : (m.withWorld w).sink = w.sink := rfl
    simp only [if_pos ha, runOn_bind, runOn_get, runOn_set, carryOut, hsink]
    rcases (b.routine.carryOut vs).runOn w.sink with ⟨e | v, sink⟩
    · cases e <;> rfl
    · rfl
  · simp only [if_neg ha]

theorem callBuiltin_follows (m : Machine) (ρ : Option Scope) (w w₁ : World) (b : Builtin)
    (vs : List Value) (x : String) (es : List Expr) (hf : m.functions.get? x = none)
    (hb : m.builtins.get? x = some b) (hvs : EvaluatesAll m.callables ρ w es (.ok vs) w₁) :
    Follows (callBuiltin b vs) (m.withWorld w₁) m.withWorld
      (Evaluates m.callables ρ w (.call (.name x) es)) := by
  have hrun := runOn_callBuiltin b vs m w₁
  split at hrun
  · next ha => exact .of_run hrun (.callBuiltin hf hb hvs ha)
  · next ha => exact .of_run hrun (.callBuiltinArity hf hb hvs ha)

theorem contains_of_function {m : Machine} {x : String} {f : Function}
    (hf : m.functions.get? x = some f) : m.callables.contains x = true := by
  simp [Callables.contains, Machine.callables, Table.contains, hf]

theorem contains_of_builtin {m : Machine} {x : String} {b : Builtin}
    (hb : m.builtins.get? x = some b) : m.callables.contains x = true := by
  simp [Callables.contains, Machine.callables, Table.contains, hb]

theorem not_contains {m : Machine} {x : String} (hf : m.functions.get? x = none)
    (hb : m.builtins.get? x = none) : ¬ m.callables.contains x = true := by
  simp [Callables.contains, Machine.callables, Table.contains, hf, hb]

/-- The name is looked up once, before the arguments are evaluated. -/
theorem namedCall_follows (heval : SoundEval eval) (hcall : SoundCall call) (m : Machine)
    (x : String) (es : List Expr) :
    Follows (namedCall eval call x es) m m.withWorld
      (Evaluates m.callables m.frames.head? m.world (.call (.name x) es)) := by
  have hlist := list_follows heval m es m.world
  cases hf : m.functions.get? x with
  | some f =>
    refine Follows.congr (runOn_namedCall_function hf es) (Follows.bind hlist ?_ ?_)
    · exact fun vs w₁ hvs => (hcall f vs (m.withWorld w₁)).mono fun r t hR => .call hf hvs hR
    · exact fun h t hR => .callArgsHalt (contains_of_function hf) hR
  | none =>
    cases hb : m.builtins.get? x with
    | some b =>
      refine Follows.congr (runOn_namedCall_builtin hf hb es) (Follows.bind hlist ?_ ?_)
      · exact fun vs w₁ hvs => callBuiltin_follows m _ _ w₁ b vs x es hf hb hvs
      · exact fun h t hR => .callArgsHalt (contains_of_builtin hb) hR
    | none =>
      cases hr : m.resolve x with
      | ok v =>
        refine .of_run (s := m.world) ?_ (.callVariable (not_contains hf hb) hr)
        rw [runOn_namedCall_other hf hb, hr]
        rfl
      | error e =>
        refine .of_run (s := m.world) ?_ (.callUnresolved (not_contains hf hb) hr)
        rw [runOn_namedCall_other hf hb, hr]
        rfl

theorem node_follows (heval : SoundEval eval) (hcall : SoundCall call) (e : Expr) (m : Machine) :
    Follows (node eval call e) m m.withWorld (Evaluates m.callables m.frames.head? m.world e) := by
  cases e with
  | null => exact .of_run (s := m.world) rfl .null
  | int n => exact .of_run (s := m.world) rfl .int
  | float x => exact .of_run (s := m.world) rfl .float
  | string s => exact .of_run (s := m.world) rfl .string
  | name x => exact .of_run (s := m.world) (runOn_resolve x m) .name
  | unary op e =>
    refine Follows.bind (heval e m) ?_ fun h t hR => Evaluates.unaryHalt hR
    intro v w₁ hv
    exact .of_run (runOn_lift _ _) (.unary hv)
  | binary op a b =>
    refine Follows.bind (heval a m) ?_ fun h t hR => Evaluates.binaryLeftHalt hR
    intro u w₁ hu
    refine Follows.bind (heval b (m.withWorld w₁)) ?_ fun h t hR => Evaluates.binaryRightHalt hu hR
    intro v w₂ hv
    exact .of_run (runOn_lift _ _) (.binary hu hv)
  | call callee es =>
    cases callee with
    | name x => exact namedCall_follows heval hcall m x es
    | _ =>
      -- Any other callee is evaluated, and its value is refused.
      refine Follows.bind (heval _ m) ?_ fun h t hR => Evaluates.callValueHalt (by simp) hR
      intro v w₁ hv
      exact .of_run (runOn_fail _ _) (.callValue (by simp) hv)

/-- A call passes its checks or fails one of them, and then it is entered. -/
theorem allowCall_follows {x : Eval Value} (m : Machine) (f : Function) (vs : List Value)
    (hx : accepts f.minArgs f.maxArgs vs.length →
      Follows x m m.withWorld (Calls m.callables m.world f vs)) :
    Follows (do allowCall f vs; x) m m.withWorld (Calls m.callables m.world f vs) := by
  have hallow := runOn_allowCall f vs m
  by_cases ha : f.minArgs ≤ vs.length ∧ vs.length ≤ f.maxArgs
  · rw [if_pos ha] at hallow
    split at hallow
    · exact .of_atLimit (s := m.world) (runOn_bind_error hallow) rfl
    · obtain ⟨r, w, hrun, hR⟩ := hx ha
      exact ⟨r, w, (runOn_bind_ok hallow).trans hrun, hR⟩
  · rw [if_neg ha] at hallow
    exact .of_run (s := m.world) (runOn_bind_error hallow) (.arity ha)

theorem starved_follows {R : Result Value → World → Prop} (m : Machine) :
    Follows (throw .starved) m m.withWorld R :=
  .of_atLimit (s := m.world) (runOn_throw _ _) rfl

theorem eval_follows (fuel : Nat) : SoundEval (expr fuel) ∧ SoundCall (Eval.call fuel) := by
  induction fuel with
  | zero =>
    constructor
    · exact fun e m => Follows.nested rfl (starved_follows _)
    · exact fun f vs m => allowCall_follows m f vs fun _ => Follows.nested rfl (starved_follows _)
  | succ fuel ih =>
    constructor
    · exact fun e m => Follows.nested rfl (node_follows ih.1 ih.2 e _)
    · exact fun f vs m => allowCall_follows m f vs fun ha =>
        Follows.nested rfl (enter_follows ih.1 _ f vs ha)

/-! ## Programs -/

theorem value_follows (e : Expr) (m : Machine) :
    Follows (value e) m m.withWorld (Evaluates m.callables m.frames.head? m.world e) :=
  (eval_follows m.levelsLeft).1 e m

theorem runOn_declareGlobal (m : Machine) (w : World) (ident : String) (v : Value)
    (mutability : Mutability) :
    (update (·.declareGlobal ident v mutability)).runOn (m.withWorld w) =
      match declareGlobal m.callables w ident v mutability with
      | .ok w => (.ok (), m.withWorld w)
      | .error e => (.error (.error e), m.withWorld w) := by
  have htaken : (m.withWorld w).isTaken ident = taken m.callables w.globals ident := rfl
  rw [runOn_update, Machine.declareGlobal, declareGlobal, htaken]
  cases ht : taken m.callables w.globals ident with
  | true => rfl
  | false =>
    have hnew : w.globals.contains ident = false := by
      rw [taken, Bool.or_eq_false_iff] at ht
      exact ht.1
    have hdeclare : (m.withWorld w).globals.declare ident v mutability =
        .ok (w.globals.insert ident ⟨v, mutability⟩) := by
      change w.globals.declare ident v mutability = _
      rw [Scope.declare, hnew]
      rfl
    rw [hdeclare]
    rfl

theorem runOn_functions {m : Machine} {fs : List Function} {r : Except RuntimeError Unit}
    {declared : Table Function}
    (h : hoist m.builtins m.globals fs m.functions = (r, declared)) :
    (functions fs).runOn m = (r.mapError .error, { m with functions := declared }) := by
  induction fs generalizing m with
  | nil =>
    cases h
    rfl
  | cons f fs ih =>
    have htaken : m.isTaken f.ident = taken ⟨m.builtins, m.functions⟩ m.globals f.ident := rfl
    unfold hoist at h
    rw [functions, runOn_bind, runOn_update, Machine.declareFunction, htaken]
    cases ht : taken ⟨m.builtins, m.functions⟩ m.globals f.ident with
    | true =>
      rw [ht] at h
      cases h
      rfl
    | false =>
      rw [ht] at h
      exact ih (m := { m with functions := m.functions.insert f.ident f }) h

/-- Evaluates what a global variable begins with. -/
def initialValue : Option Expr → Eval Value
  | some e => value e
  | none => return .null

theorem globals_cons {d : Decl} {g : Global} (hd : global? d = some g) (ds : List Decl) :
    globals (d :: ds) = (initialValue g.initial >>= fun v =>
      update (·.declareGlobal g.ident v g.mutability) >>= fun _ => globals ds) := by
  cases d with
  | const ident e =>
    cases hd
    rfl
  | var ident e? =>
    cases hd
    cases e? <;> rfl
  | func f => cases hd

theorem globals_cons_func {d : Decl} (hd : global? d = none) (ds : List Decl) :
    globals (d :: ds) = globals ds := by
  cases d with
  | func f => rfl
  | _ => cases hd

theorem initial_follows (m : Machine) (hm : m.frames = []) (w : World) (e? : Option Expr) :
    Follows (initialValue e?) (m.withWorld w) m.withWorld (Initial m.callables w e?) := by
  cases e? with
  | none => exact .of_run (s := w) rfl .absent
  | some e =>
    have hvalue := value_follows e (m.withWorld w)
    rw [Machine.frames_withWorld, hm] at hvalue
    exact Follows.mono hvalue fun r t hR => .given hR

theorem globals_follows (m : Machine) (hm : m.frames = []) (ds : List Decl) (w : World) :
    Follows (globals ds) (m.withWorld w) m.withWorld (Initializes m.callables w ds) := by
  induction ds generalizing w with
  | nil => exact .of_run (s := w) rfl .done
  | cons d ds ih =>
    cases hd : global? d with
    | none =>
      rw [globals_cons_func hd]
      exact (ih w).mono fun r t hR => .func hd hR
    | some g =>
      rw [globals_cons hd]
      refine Follows.bind (initial_follows m hm w g.initial) ?_
        fun h t hR => Initializes.halt hd hR
      intro v w₁ hv
      have hrun := runOn_declareGlobal m w₁ g.ident v g.mutability
      cases hdeclare : declareGlobal m.callables w₁ g.ident v g.mutability with
      | error e =>
        rw [hdeclare] at hrun
        exact .of_run (runOn_bind_error hrun) (.fault hd hv hdeclare)
      | ok w₂ =>
        rw [hdeclare] at hrun
        exact Follows.congr (runOn_bind_ok hrun)
          ((ih w₂).mono fun r t hR => .next hd hv hdeclare hR)

/-- The rules for the two ways in which a program's declarations are carried out. -/
def Performs (builtins : Builtins) (s : Store) (p : Program) (r : Result Unit) (t : Store) : Prop :=
  (∃ e, hoist builtins s.globals p.functions s.functions = (.error e, t.functions) ∧
    r = .error (.error e) ∧ t.toWorld = s.toWorld) ∨
  (hoist builtins s.globals p.functions s.functions = (.ok (), t.functions) ∧
    Initializes ⟨builtins, t.functions⟩ s.toWorld p.decls r t.toWorld)

end Semantics

namespace Machine

open Semantics Scriptlet.Action

/-- What a run keeps for the next one. -/
def store (m : Machine) : Store := ⟨m.world, m.functions⟩

/-- The machine with another store. -/
def withStore (m : Machine) (s : Store) : Machine :=
  { m.withWorld s.toWorld with functions := s.functions }

theorem program_follows {m : Machine} (hm : m.frames = []) (p : Program) :
    Follows (Eval.program p) m m.withStore (Performs m.builtins m.store p) := by
  cases hhoist : hoist m.builtins m.globals p.functions m.functions with
  | mk r functions =>
    have hfunctions := runOn_functions hhoist
    cases r with
    | error e =>
      refine .of_run (s := ⟨m.world, functions⟩) (runOn_bind_error hfunctions) (.inl ?_)
      exact ⟨e, hhoist, rfl, rfl⟩
    | ok _ =>
      obtain ⟨r, w, hrun, hR⟩ := globals_follows { m with functions } hm p.decls m.world
      exact ⟨r, ⟨w, functions⟩, (runOn_bind_ok hfunctions).trans hrun,
        fun hr => .inr ⟨hhoist, hR hr⟩⟩

/-- The result that a run has before its final flush, the fault of which would take its place. -/
def unflushed (m : Machine) (p : Program) : Except RuntimeError Outcome :=
  m.resultOf ((Eval.program p).runOn m).1

theorem run_snd (m : Machine) (p : Program) :
    (m.run p).2 = ((Eval.program p).runOn m).2.atRest := by
  simp only [run]
  split <;> rfl

theorem run_fst (m : Machine) (p : Program) :
    (m.run p).1 = match ((Eval.program p).runOn m).2.sink.flush with
      | .error e => .error (.output e)
      | .ok () =>
        ((Eval.program p).runOn m).2.resultOf ((Eval.program p).runOn m).1 := by
  have hsink : ((Eval.program p).runOn m).2.atRest.sink = ((Eval.program p).runOn m).2.sink := rfl
  simp only [run, hsink]
  cases ((Eval.program p).runOn m).2.sink.flush <;> rfl

/-- A run that a limit ended, or its fuel, was too deep. -/
theorem atLimit_eq_false_of_resultOf {m : Machine} {r : Result Unit}
    (h : ∀ kind limit, m.resultOf r ≠ .error (.tooDeep kind limit)) : atLimit r = false := by
  match r with
  | .ok _ | .error (.exit _) => rfl
  | .error .starved => exact absurd rfl (h _ _)
  | .error (.error e) =>
    cases e with
    | tooDeep kind limit => exact absurd rfl (h _ _)
    | _ => rfl

/-- A run in terms of what its declarations did. -/
theorem run_eq {m : Machine} {p : Program} {r : Result Unit} {s : Store}
    (h : (Eval.program p).runOn m = (r, m.withStore s)) :
    m.run p = (match s.sink.flush with
      | .error e => .error (.output e)
      | .ok () => m.unflushed p, (m.withStore s).atRest) := by
  refine Prod.ext ?_ ?_
  · rw [run_fst, unflushed, h]
    rfl
  · rw [run_snd, h]

theorem run_fst_of_flush {m : Machine} (hm : m.frames = []) {p : Program}
    (h : (m.run p).2.sink.flush = .ok ()) : (m.run p).1 = m.unflushed p := by
  obtain ⟨r, s, hrun, -⟩ := program_follows hm p
  rw [run_eq hrun] at h ⊢
  change s.sink.flush = .ok () at h
  rw [h]

theorem finishes {m : Machine} {r : Result Unit} (hr : atLimit r = false) (sink : Sink) :
    Finishes r sink (match sink.flush with
      | .error e => .error (.output e)
      | .ok () => m.resultOf r) := by
  cases hflush : sink.flush with
  | error e => exact .unflushed hflush
  | ok _ =>
    match r with
    | .ok () => exact .completed hflush
    | .error (.exit status) => exact .exited hflush
    | .error (.error e) => exact .failed hflush
    | .error .starved => cases hr

theorem runs_run {m : Machine} (hm : m.frames = []) {p : Program}
    (h : ∀ kind limit, m.unflushed p ≠ .error (.tooDeep kind limit)) :
    Runs m.builtins m.store p (m.run p).1 (m.run p).2.store := by
  obtain ⟨r, s, hrun, hR⟩ := program_follows hm p
  have hr : atLimit r = false := by
    rw [unflushed, hrun] at h
    exact atLimit_eq_false_of_resultOf h
  have hfinishes : Finishes r s.sink (m.run p).1 := by
    rw [run_eq hrun, unflushed, hrun]
    exact finishes hr s.sink
  have hstore : (m.run p).2.store = s := by
    rw [run_eq hrun]
    rfl
  rw [hstore]
  rcases hR hr with ⟨e, hhoist, rfl, hw⟩ | ⟨hhoist, hinit⟩
  · obtain ⟨w, functions⟩ := s
    cases hw
    exact .refused hhoist hfinishes
  · exact .evaluated hhoist hinit hfinishes

end Machine

end Scriptlet
