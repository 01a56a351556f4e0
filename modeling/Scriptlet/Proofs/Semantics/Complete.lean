-- SUMMARY: Whatever the rules derive, the machine does under limits that leave enough room.
import Scriptlet.Proofs.Semantics.Sound

/-!
# Completeness of the machine

A derivation is finite, so it nests only so deep. Under limits that leave as much
room, with as much fuel, the machine does what is derived. `Attained` says so of
an action that is given fuel; its number grows with the height of the derivation.
-/
namespace Scriptlet

open Semantics Scriptlet.Action

/-- Is there room on the machine for so many more levels? -/
def Machine.Room (m : Machine) (n : Nat) : Prop :=
  m.depth + n ≤ m.limits.evaluations ∧ m.frames.length + n ≤ m.limits.calls

theorem Machine.Room.mono {m : Machine} {n k : Nat} (h : m.Room k) (hn : n ≤ k) : m.Room n :=
  ⟨by have := h.1; omega, by have := h.2; omega⟩

namespace Semantics

open Eval

variable {α β σ : Type} {Γ : Callables}

/-- With enough fuel and room, the action goes from `s` to `t` and ends as `r`, on every machine
that fits. -/
def Attained (Γ : Callables) (fits : Machine → Prop) (move : Machine → σ → Machine)
    (x : Nat → Eval α) (s : σ) (r : Result α) (t : σ) : Prop :=
  ∃ n, ∀ fuel, n ≤ fuel → ∀ m : Machine, m.callables = Γ → fits m → m.Room n →
    (x fuel).runOn (move m s) = (r, move m t)

/-- An action that is attained where the variables `ρ` are those of the active call. -/
abbrev AttainedAt (Γ : Callables) (ρ : Option Scope) : (Nat → Eval α) → World → Result α → World →
    Prop :=
  Attained Γ (·.frames.head? = ρ) Machine.withWorld

/-- An action that is attained in a call, whose variables it may change. -/
abbrev AttainedIn (Γ : Callables) : (Nat → Eval α) → Scope × World → Result α → Scope × World →
    Prop :=
  Attained Γ (fun _ => True) Machine.inCall

namespace Attained

variable {fits : Machine → Prop} {move : Machine → σ → Machine} {x : Nat → Eval α} {s t u : σ}

theorem of_run {r : Result α}
    (h : ∀ k m, m.callables = Γ → fits m → (x k).runOn (move m s) = (r, move m t)) :
    Attained Γ fits move x s r t :=
  ⟨0, fun k _ m hm hfits _ => h k m hm hfits⟩

theorem congr {y : Nat → Eval α} {r : Result α} (hy : Attained Γ fits move y s r t)
    (h : ∀ k m, m.callables = Γ → fits m → (x k).runOn (move m s) = (y k).runOn (move m s)) :
    Attained Γ fits move x s r t := by
  obtain ⟨n, hn⟩ := hy
  exact ⟨n, fun k hk m hm hfits hroom =>
    (h k m hm hfits).trans (hn k hk m hm hfits hroom)⟩

theorem bind {f : Nat → α → Eval β} {a : α} {r : Result β}
    (hx : Attained Γ fits move x s (.ok a) t) (hf : Attained Γ fits move (f · a) t r u) :
    Attained Γ fits move (fun k => x k >>= f k) s r u := by
  obtain ⟨n, hn⟩ := hx
  obtain ⟨l, hl⟩ := hf
  refine ⟨max n l, fun k hk m hm hfits hroom => ?_⟩
  have hfirst := hn k (by omega) m hm hfits (hroom.mono (by omega))
  have hsecond := hl k (by omega) m hm hfits (hroom.mono (by omega))
  exact (runOn_bind_ok hfirst).trans hsecond

theorem bindHalt {f : Nat → α → Eval β} {h : Halt} (hx : Attained Γ fits move x s (.error h) t) :
    Attained Γ fits move (fun k => x k >>= f k) s (.error h) t := by
  obtain ⟨n, hn⟩ := hx
  exact ⟨n, fun k hk m hm hfits hroom => runOn_bind_error (hn k hk m hm hfits hroom)⟩

/-- An expression of a statement or a default is attained in the call that it is in. -/
theorem inCall {x : Nat → Eval α} {ρ : Scope} {w w' : World} {r : Result α}
    (hx : AttainedAt Γ (some ρ) x w r w') : AttainedIn Γ x (ρ, w) r (ρ, w') := by
  obtain ⟨n, hn⟩ := hx
  refine ⟨n + 1, fun k hk m hm _ hroom => ?_⟩
  refine hn k (by omega) (m.inCall (ρ, w)) hm rfl ⟨?_, ?_⟩
  · exact (hroom.mono (Nat.le_succ n)).1
  · have := hroom.2
    simp only [Machine.frames_inCall, List.length_cons]
    change m.frames.length + 1 + n ≤ m.limits.calls
    omega

end Attained

/-- The machine one level deeper. -/
def deeper (m : Machine) : Machine := { m with depth := m.depth + 1 }

theorem room_deeper {m : Machine} {n : Nat} (h : m.Room (n + 1)) : (deeper m).Room n :=
  ⟨by have := h.1; simp only [deeper]; omega, (h.mono (Nat.le_succ n)).2⟩

theorem runOn_nested_deeper {x : Eval α} {m : Machine} {w w' : World} {r : Result α} {n : Nat}
    (hroom : m.Room (n + 1))
    (hx : x.runOn ((deeper m).withWorld w) = (r, (deeper m).withWorld w')) :
    (nested x).runOn (m.withWorld w) = (r, m.withWorld w') := by
  have hlimit : ¬ (m.withWorld w).limits.evaluations ≤ (m.withWorld w).depth := by
    have hdepth := hroom.1
    change ¬ m.limits.evaluations ≤ m.depth
    omega
  exact runOn_nested_room hlimit hx

theorem attained_expr {e : Expr} {ρ : Option Scope} {w w' : World} {r : Result Value}
    (hx : AttainedAt Γ ρ (fun k => node (expr k) (call k) e) w r w') :
    AttainedAt Γ ρ (expr · e) w r w' := by
  obtain ⟨n, hn⟩ := hx
  refine ⟨n + 1, fun k hk m hm hfits hroom => ?_⟩
  cases k with
  | zero => omega
  | succ k =>
    have hnode := hn k (by omega) (deeper m) hm hfits (room_deeper hroom)
    exact runOn_nested_deeper hroom hnode

theorem attained_call {f : Function} {vs : List Value} {ρ : Option Scope} {ρ' : Scope}
    {w w' : World} {r : Result Value} (hvs : accepts f.minArgs f.maxArgs vs.length)
    (hx : AttainedIn Γ (fun k => bindAll (expr k) (params f) vs >>= fun _ => body (expr k) f.body)
      ({}, w) r (ρ', w')) :
    AttainedAt Γ ρ (call · f vs) w r w' := by
  obtain ⟨n, hn⟩ := hx
  refine ⟨n + 1, fun k hk m hm hfits hroom => ?_⟩
  cases k with
  | zero => omega
  | succ k =>
    have hcalls : ¬ (m.withWorld w).limits.calls ≤ (m.withWorld w).frames.length := by
      have hframes := hroom.2
      change ¬ m.limits.calls ≤ m.frames.length
      omega
    have hallow := runOn_allowCall f vs (m.withWorld w)
    rw [if_pos hvs, if_neg hcalls] at hallow
    have henter := hn k (by omega) (deeper m) hm trivial (room_deeper hroom)
    refine (runOn_bind_ok hallow).trans (runOn_nested_deeper hroom ?_)
    rw [enter_eq_bindAll _ hvs, runOn_inFrame]
    change (match (_ >>= _ : Eval Value).runOn ((deeper m).inCall ({}, w)) with
      | (result, m') => (result, { m' with frames := m'.frames.tail })) = _
    rw [henter]
    rfl

theorem attained_call_arity {f : Function} {vs : List Value} {ρ : Option Scope} {w : World}
    (hvs : ¬ accepts f.minArgs f.maxArgs vs.length) :
    AttainedAt Γ ρ (call · f vs) w
      (.error (.error (.arity f.ident f.minArgs f.maxArgs vs.length))) w := by
  refine .of_run fun k m _ _ => ?_
  have hallow := runOn_allowCall f vs (m.withWorld w)
  rw [if_neg hvs] at hallow
  cases k <;> exact runOn_bind_error hallow

/-! ## Derivations -/

section
variable {ρ : Option Scope} {w w₁ w₂ : World} {x : String} {es : List Expr} {vs : List Value}

theorem attained_namedCall_function {f : Function} {r : Result Value}
    (hf : Γ.functions.get? x = some f)
    (hes : AttainedAt Γ ρ (fun k => list (expr k) es) w (.ok vs) w₁)
    (hcall : AttainedAt Γ ρ (call · f vs) w₁ r w₂) :
    AttainedAt Γ ρ (fun k => namedCall (expr k) (call k) x es) w r w₂ := by
  apply Attained.congr (hes.bind (f := fun k => call k f) hcall)
  intro k m hm _
  subst hm
  exact runOn_namedCall_function (m := m.withWorld w) hf es

theorem attained_namedCall_builtin {b : Builtin} {r : Result Value}
    (hf : Γ.functions.get? x = none) (hb : Γ.builtins.get? x = some b)
    (hes : AttainedAt Γ ρ (fun k => list (expr k) es) w (.ok vs) w₁)
    (hcall : AttainedAt Γ ρ (fun _ => callBuiltin b vs) w₁ r w₂) :
    AttainedAt Γ ρ (fun k => namedCall (expr k) (call k) x es) w r w₂ := by
  apply Attained.congr (hes.bind (f := fun _ => callBuiltin b) hcall)
  intro k m hm _
  subst hm
  exact runOn_namedCall_builtin (m := m.withWorld w) hf hb es

theorem attained_namedCall_argsHalt {h : Halt} (hx : Γ.contains x = true)
    (hes : AttainedAt Γ ρ (fun k => list (expr k) es) w (.error h) w₁) :
    AttainedAt Γ ρ (fun k => namedCall (expr k) (call k) x es) w (.error h) w₁ := by
  cases hf : Γ.functions.get? x with
  | some f =>
    apply Attained.congr (hes.bindHalt (f := fun k => call k f))
    intro k m hm _
    subst hm
    exact runOn_namedCall_function (m := m.withWorld w) hf es
  | none =>
    cases hb : Γ.builtins.get? x with
    | some b =>
      apply Attained.congr (hes.bindHalt (f := fun _ => callBuiltin b))
      intro k m hm _
      subst hm
      exact runOn_namedCall_builtin (m := m.withWorld w) hf hb es
    | none => simp [Callables.contains, Table.contains, hf, hb] at hx

theorem attained_namedCall_other {h : Halt} (hx : ¬ Γ.contains x = true)
    (hh : (match read Γ ρ w x with
      | .ok _ => Halt.error (.type (.variableCalled x))
      | .error _ => .error (.unresolved x)) = h) :
    AttainedAt Γ ρ (fun k => namedCall (expr k) (call k) x es) w (.error h) w := by
  refine .of_run fun k m hm hρ => ?_
  subst hm hρ hh
  have hnone : m.functions.get? x = none ∧ m.builtins.get? x = none := by
    simpa [Callables.contains, Machine.callables, Table.contains] using hx
  rw [runOn_namedCall_other (m := m.withWorld w) hnone.1 hnone.2, Machine.resolve_eq_read]
  change (match read m.callables m.frames.head? w x with | .ok _ => _ | .error _ => _) = _
  cases read m.callables m.frames.head? w x <;> rfl

theorem node_call_of_ne {eval : Expr → Eval Value} {call : Function → List Value → Eval Value}
    {callee : Expr} (hcallee : ∀ x, callee ≠ .name x) (es : List Expr) :
    node eval call (.call callee es) =
      eval callee >>= fun v => fail (.type (.valueCalled v.ty)) := by
  cases callee with
  | name x => exact absurd rfl (hcallee x)
  | _ => rfl

end

theorem attained_declare {ρ ρ₁ : Scope} {w : World} {x : String} {v : Value}
    {mutability : Mutability} (hρ : ρ.declare x v mutability = .ok ρ₁) :
    AttainedIn Γ (fun _ => declare x v mutability) (ρ, w) (.ok ()) (ρ₁, w) :=
  .of_run fun _ m _ _ => by rw [runOn_declare, hρ]

theorem attained_declare_fault {ρ : Scope} {w : World} {x : String} {v : Value}
    {mutability : Mutability} {e : RuntimeError} (hρ : ρ.declare x v mutability = .error e) :
    AttainedIn Γ (fun _ => declare x v mutability) (ρ, w) (.error (.error e)) (ρ, w) :=
  .of_run fun _ m _ _ => by rw [runOn_declare, hρ]

theorem attained_settle_returned {s : Stmt} (hs : returns s = true) (v : Value) (ρ : Scope)
    (w : World) : AttainedIn Γ (fun _ => settle s v) (ρ, w) (.ok (some v)) (ρ, w) :=
  .of_run fun _ _ _ _ => runOn_settle_returned hs v _

theorem attained_settle {s : Stmt} (hs : returns s = false) {v : Value} {ρ : Scope} {w : World}
    {t : Scope × World} (ht : effect s v ρ w = .ok t) :
    AttainedIn Γ (fun _ => settle s v) (ρ, w) (.ok none) t :=
  .of_run fun _ m _ _ => by rw [runOn_settle hs, ht]

theorem attained_settle_fault {s : Stmt} (hs : returns s = false) {v : Value} {ρ : Scope}
    {w : World} {e : RuntimeError} (ht : effect s v ρ w = .error e) :
    AttainedIn Γ (fun _ => settle s v) (ρ, w) (.error (.error e)) (ρ, w) :=
  .of_run fun _ m _ _ => by rw [runOn_settle hs, ht]

theorem attained_body_cons {s : Stmt} {ss : List Stmt} {ρ ρ₁ : Scope} {w w₁ : World}
    {r : Result Value}
    (h : AttainedIn Γ (fun k => expr k s.value >>= fun v =>
      settle s v >>= carryOn (expr k) ss) (ρ, w) r (ρ₁, w₁)) :
    AttainedIn Γ (fun k => body (expr k) (s :: ss)) (ρ, w) r (ρ₁, w₁) :=
  h.congr fun k m _ _ => by rw [body_cons]

mutual

theorem Evaluates.attained {ρ : Option Scope} {w w' : World} {e : Expr} {r : Result Value} :
    Evaluates Γ ρ w e r w' → AttainedAt Γ ρ (expr · e) w r w'
  | .null | .int | .float | .string => attained_expr (.of_run fun _ _ _ _ => rfl)
  | .name => by
    refine attained_expr (.of_run fun k m hm hρ => ?_)
    subst hm hρ
    exact runOn_resolve _ _
  | .unary he =>
    attained_expr (.bind he.attained (.of_run fun _ _ _ _ => runOn_lift _ _))
  | .unaryHalt he => attained_expr (.bindHalt he.attained)
  | .binary ha hb =>
    attained_expr (.bind ha.attained (.bind hb.attained (.of_run fun _ _ _ _ => runOn_lift _ _)))
  | .binaryLeftHalt ha => attained_expr (.bindHalt ha.attained)
  | .binaryRightHalt ha hb => attained_expr (.bind ha.attained (.bindHalt hb.attained))
  | .call hf hes hcall =>
    attained_expr (attained_namedCall_function hf hes.attained hcall.attained)
  | .callBuiltin hf hb hes ha =>
    attained_expr (attained_namedCall_builtin hf hb hes.attained
      (.of_run fun _ _ _ _ => (runOn_callBuiltin _ _ _ _).trans (if_pos ha)))
  | .callBuiltinArity hf hb hes ha =>
    attained_expr (attained_namedCall_builtin hf hb hes.attained
      (.of_run fun _ _ _ _ => (runOn_callBuiltin _ _ _ _).trans (if_neg ha)))
  | .callArgsHalt hx hes => attained_expr (attained_namedCall_argsHalt hx hes.attained)
  | .callVariable hx hr => attained_expr (attained_namedCall_other hx (by rw [hr]))
  | .callUnresolved hx hr => attained_expr (attained_namedCall_other hx (by rw [hr]))
  | .callValue hcallee he =>
    attained_expr (.congr (.bind he.attained (.of_run fun _ _ _ _ => runOn_fail _ _))
      fun _ _ _ _ => by rw [node_call_of_ne hcallee])
  | .callValueHalt hcallee he =>
    attained_expr (.congr (.bindHalt he.attained) fun _ _ _ _ => by rw [node_call_of_ne hcallee])

theorem EvaluatesAll.attained {ρ : Option Scope} {w w' : World} {es : List Expr}
    {r : Result (List Value)} :
    EvaluatesAll Γ ρ w es r w' → AttainedAt Γ ρ (fun k => list (expr k) es) w r w'
  | .nil => .of_run fun _ _ _ _ => rfl
  | .cons he hes => .bind he.attained (.bind hes.attained (.of_run fun _ _ _ _ => rfl))
  | .headHalt he => .bindHalt he.attained
  | .tailHalt he hes => .bind he.attained (.bindHalt hes.attained)

theorem Calls.attained {ρ : Option Scope} {w w' : World} {f : Function} {vs : List Value}
    {r : Result Value} :
    Calls Γ w f vs r w' → AttainedAt Γ ρ (call · f vs) w r w'
  | .arity hvs => attained_call_arity hvs
  | .body hvs hbinds hbody => by
    obtain ⟨ρ₁, hok, hbound⟩ := hbinds.attained
    obtain ⟨ρ₂, hexecuted⟩ := hbody.attained
    cases hok _ rfl
    exact attained_call hvs (.bind hbound hexecuted)
  | .bindHalt hvs hbinds => by
    obtain ⟨ρ₁, -, hbound⟩ := hbinds.attained
    exact attained_call hvs (.bindHalt hbound)

/-- The variables of a call are known only while it goes on. -/
theorem Binds.attained {ρ : Scope} {w w' : World} {ps : List Param} {vs : List Value}
    {r : Result Scope} :
    Binds Γ ρ w ps vs r w' → ∃ ρ', (∀ ρ₁, r = .ok ρ₁ → ρ₁ = ρ') ∧
      AttainedIn Γ (fun k => bindAll (expr k) ps vs) (ρ, w) (r.map fun _ => ()) (ρ', w')
  | .done => ⟨ρ, fun _ h => by cases h; rfl, .of_run fun _ _ _ _ => rfl⟩
  | .argument hρ hps => by
    obtain ⟨ρ', hok, hrest⟩ := hps.attained
    exact ⟨ρ', hok, .bind (attained_declare hρ) hrest⟩
  | .argumentFault hρ => ⟨ρ, nofun, .bindHalt (attained_declare_fault hρ)⟩
  | .default he hρ hps => by
    obtain ⟨ρ', hok, hrest⟩ := hps.attained
    exact ⟨ρ', hok, .bind he.attained.inCall (.bind (attained_declare hρ) hrest)⟩
  | .defaultFault he hρ =>
    ⟨ρ, nofun, .bind he.attained.inCall (.bindHalt (attained_declare_fault hρ))⟩
  | .defaultHalt he => ⟨ρ, nofun, .bindHalt he.attained.inCall⟩

theorem Executes.attained {ρ : Scope} {w w' : World} {ss : List Stmt} {r : Result Value} :
    Executes Γ ρ w ss r w' → ∃ ρ', AttainedIn Γ (fun k => body (expr k) ss) (ρ, w) r (ρ', w')
  | .done => ⟨ρ, .of_run fun _ _ _ _ => rfl⟩
  | .halt he => ⟨ρ, attained_body_cons (.bindHalt he.attained.inCall)⟩
  | .returned hs he =>
    ⟨ρ, attained_body_cons (.bind he.attained.inCall (.bind (attained_settle_returned hs _ ρ _)
      (.of_run fun _ _ _ _ => rfl)))⟩
  | .fault hs he heffect =>
    ⟨ρ, attained_body_cons (.bind he.attained.inCall
      (.bindHalt (attained_settle_fault hs heffect)))⟩
  | .next hs he heffect hss => by
    obtain ⟨ρ', hrest⟩ := hss.attained
    exact ⟨ρ', attained_body_cons (.bind he.attained.inCall
      (.bind (attained_settle hs heffect) hrest))⟩

end

/-! ## Programs -/

/-- The fuel that the limits allow is as much as there is room. -/
theorem attained_value {e : Expr} {ρ : Option Scope} {w w' : World} {r : Result Value}
    (he : AttainedAt Γ ρ (expr · e) w r w') : AttainedAt Γ ρ (fun _ => value e) w r w' := by
  obtain ⟨n, hn⟩ := he
  refine ⟨n, fun k _ m hm hρ hroom => hn m.levelsLeft ?_ m hm hρ hroom⟩
  have hdepth := hroom.1
  unfold Machine.levelsLeft
  omega

theorem Initial.attained {w w' : World} {e? : Option Expr} {r : Result Value}
    (h : Initial Γ w e? r w') : AttainedAt Γ none (fun _ => initialValue e?) w r w' := by
  cases h with
  | absent => exact .of_run fun _ _ _ _ => rfl
  | given he => exact attained_value he.attained

theorem Initializes.attained {w w' : World} {ds : List Decl} {r : Result Unit}
    (h : Initializes Γ w ds r w') : AttainedAt Γ none (fun _ => globals ds) w r w' := by
  induction h with
  | done => exact .of_run fun _ _ _ _ => rfl
  | func hd _ ih =>
    rw [globals_cons_func hd]
    exact ih
  | halt hd hg =>
    rw [globals_cons hd]
    exact .bindHalt hg.attained
  | fault hd hg hdeclare =>
    rw [globals_cons hd]
    refine .bind hg.attained (.bindHalt (.of_run fun _ m hm _ => ?_))
    rw [runOn_declareGlobal, hm, hdeclare]
  | next hd hg hdeclare _ ih =>
    rw [globals_cons hd]
    refine .bind hg.attained (.bind (.of_run (r := .ok ()) fun _ m hm _ => ?_) ih)
    rw [runOn_declareGlobal, hm, hdeclare]

theorem Finishes.eq {r : Result Unit} {sink : Sink} {out : Except RuntimeError Outcome}
    (h : Finishes r sink out) (m : Machine) :
    out = match sink.flush with
      | .error e => .error (.output e)
      | .ok () => m.resultOf r := by
  cases h with
  | unflushed hflush => rw [hflush]
  | completed hflush => rw [hflush]; rfl
  | exited hflush => rw [hflush]; rfl
  | failed hflush => rw [hflush]; rfl

theorem run_eq_of_program {m : Machine} {p : Program} {r : Result Unit} {t : Store}
    {out : Except RuntimeError Outcome} (h : (program p).runOn m = (r, m.withStore t))
    (hout : Finishes r t.sink out) : (m.run p).1 = out ∧ (m.run p).2.store = t := by
  rw [Machine.run_eq h, Machine.unflushed, h]
  exact ⟨(hout.eq m).symm, rfl⟩

/-- What the rules derive for a program, a run does that has enough room. -/
theorem Runs.attained {builtins : Builtins} {s t : Store} {p : Program}
    {out : Except RuntimeError Outcome} (h : Runs builtins s p out t) :
    ∃ n, ∀ m : Machine, m.builtins = builtins → m.store = s → m.frames = [] → m.Room n →
      (m.run p).1 = out ∧ (m.run p).2.store = t := by
  cases h with
  | refused hhoist hout =>
    refine ⟨0, fun m hb hs _ _ => run_eq_of_program ?_ hout⟩
    subst hb hs
    exact runOn_bind_error (runOn_functions hhoist)
  | @evaluated functions _ _ _ _ _ hhoist hinit hout =>
    obtain ⟨n, hn⟩ := hinit.attained
    refine ⟨n, fun m hb hs hframes hroom => run_eq_of_program ?_ hout⟩
    subst hb hs
    have hglobals := hn n (Nat.le_refl n) (m.withStore ⟨m.world, functions⟩) rfl
    exact (runOn_bind_ok (runOn_functions hhoist)).trans
      (hglobals (congrArg List.head? hframes) hroom)

/-- Programs have at most one meaning. -/
theorem Runs.unique {builtins : Builtins} {s t t' : Store} {p : Program}
    {out out' : Except RuntimeError Outcome} (h : Runs builtins s p out t)
    (h' : Runs builtins s p out' t') : out = out' ∧ t = t' := by
  obtain ⟨n, hn⟩ := h.attained
  obtain ⟨k, hk⟩ := h'.attained
  let m : Machine :=
    { builtins, limits := ⟨max n k, max n k⟩, globals := s.globals, functions := s.functions,
      sink := s.sink }
  have hroom (l : Nat) (hl : l ≤ max n k) : m.Room l := ⟨by simp [m, hl], by simp [m, hl]⟩
  obtain ⟨hout, ht⟩ := hn m rfl rfl rfl (hroom n (by omega))
  obtain ⟨hout', ht'⟩ := hk m rfl rfl rfl (hroom k (by omega))
  exact ⟨hout.symm.trans hout', ht.symm.trans ht'⟩

end Semantics

end Scriptlet
