-- SUMMARY: What an evaluation may change: mutable global variables, and the output at its end.
import Scriptlet.Proofs.Machine.Simulation
import Scriptlet.Proofs.Semantics.Sound

/-!
# Effects

Whether it returns or halts, the evaluation of an expression gives back the machine
with the scopes of all active calls and the depth as they were. Global variables
keep their names and their mutability, constants keep their values, and output is
added at the end. The statements of a call change the scope of that call besides.
-/
namespace Scriptlet

open Scriptlet.Action Semantics

/-! ## Variables -/

/-- What a variable may be turned into: it stays mutable or constant, and a constant keeps its
value. -/
structure Binding.Becomes (b c : Binding) : Prop where
  mutability : c.mutability = b.mutability
  constant : b.mutability = .constant → c.value = b.value

theorem Binding.Becomes.refl (b : Binding) : b.Becomes b := ⟨rfl, fun _ => rfl⟩

theorem Binding.Becomes.trans {b c d : Binding} (hc : b.Becomes c) (hd : c.Becomes d) :
    b.Becomes d where
  mutability := hd.mutability.trans hc.mutability
  constant h := (hd.constant (hc.mutability.trans h)).trans (hc.constant h)

/-- A scope with the same variables, whose values may have been assigned to. -/
def Scope.Updates (s t : Scope) : Prop :=
  ∀ x, Option.Rel Binding.Becomes (s.get? x) (t.get? x)

namespace Scope

variable {s t u : Scope}

theorem Updates.refl (s : Scope) : s.Updates s := by
  intro x
  cases s.get? x with
  | none => exact .none
  | some b => exact .some (.refl b)

theorem Updates.trans (ht : s.Updates t) (hu : t.Updates u) : s.Updates u := by
  intro x
  have ht := ht x
  have hu := hu x
  generalize s.get? x = b at *
  generalize t.get? x = c at *
  generalize u.get? x = d at *
  cases ht with
  | none => exact hu
  | some hc =>
    cases hu with
    | some hd => exact .some (hc.trans hd)

/-- Nothing but the values of mutable variables differs. -/
theorem Updates.eq_or_mutable (h : s.Updates t) (x : String) :
    t.get? x = s.get? x ∨
      ∃ v w, s.get? x = some ⟨v, .mutable⟩ ∧ t.get? x = some ⟨w, .mutable⟩ := by
  have hx := h x
  generalize s.get? x = b at *
  generalize t.get? x = c at *
  cases hx with
  | none => exact .inl rfl
  | @some b c hbc =>
    obtain ⟨v, kind⟩ := b
    obtain ⟨w, kind'⟩ := c
    obtain rfl : kind' = kind := hbc.mutability
    cases kind' with
    | mutable => exact .inr ⟨v, w, rfl, rfl⟩
    | constant =>
      obtain rfl : w = v := hbc.constant rfl
      exact .inl rfl

/-- Assigning to a variable changes the value of a mutable one. -/
theorem updates_of_assign {x : String} {v : Value} (h : s.assign x v = .ok t) : s.Updates t := by
  unfold Scope.assign at h
  split at h
  · next w hx =>
    cases h
    intro y
    rw [Table.get?_insert]
    split
    · next hy =>
      rw [hy, hx]
      exact .some ⟨rfl, nofun⟩
    · exact Updates.refl s y
  · cases h
  · cases h

end Scope

/-! ## Output -/

/-- The sink with more output at its end. -/
def Sink.Extends (s t : Sink) : Prop := ∃ bytes, t = s.append bytes

namespace Sink

variable {s t u : Sink}

theorem append_empty (s : Sink) : s.append .empty = s := by
  rw [append, ByteArray.append_empty]

theorem append_append (s : Sink) (xs ys : ByteArray) :
    (s.append xs).append ys = s.append (xs ++ ys) := by
  simp only [append, ByteArray.append_assoc]

theorem Extends.refl (s : Sink) : s.Extends s :=
  ⟨.empty, by rw [append, ByteArray.append_empty]⟩

theorem Extends.trans (ht : s.Extends t) (hu : t.Extends u) : s.Extends u := by
  obtain ⟨xs, rfl⟩ := ht
  obtain ⟨ys, rfl⟩ := hu
  exact ⟨xs ++ ys, append_append s xs ys⟩

theorem Extends.flush_eq (h : s.Extends t) : t.flush = s.flush := by
  obtain ⟨bytes, rfl⟩ := h
  rfl

theorem extends_write (s : Sink) (text : String) : s.Extends ((write text).runOn s).2 := by
  rw [write, runOn_bind_ok (runOn_get s), runOn_bind_ok (runOn_set s _)]
  split <;> exact ⟨_, rfl⟩

end Sink

theorem Routine.extends_output (s : Sink) (text : String) :
    s.Extends ((output text).runOn s).2 := by
  have hwrite := Sink.extends_write s text
  have hrun : runOn (ExceptT.adapt BuiltinError.output (Sink.write text)) s =
      (((Sink.write text).runOn s).1.mapError BuiltinError.output,
        ((Sink.write text).runOn s).2) := rfl
  rw [output, runOn_bind, hrun]
  rcases hend : (Sink.write text).runOn s with ⟨e | a, t⟩ <;> rw [hend] at hwrite <;> exact hwrite

theorem Routine.extends_carryOut (r : Routine) (vs : List Value) (s : Sink) :
    s.Extends ((r.carryOut vs).runOn s).2 := by
  fun_cases Routine.carryOut r vs with
  | case6 v vs =>
    have hfirst := extends_output s v.display
    rw [runOn_bind]
    rcases hrun : (output v.display).runOn s with ⟨e | a, t⟩ <;> rw [hrun] at hfirst
    · exact hfirst
    · exact hfirst.trans (extends_output t "\n")
  | case5 v vs => exact extends_output s v.display
  | _ => exact .refl s

/-! ## Worlds -/

/-- What an evaluation may make of the world. -/
structure Semantics.World.Changes (w w' : World) : Prop where
  globals : w.globals.Updates w'.globals
  sink : w.sink.Extends w'.sink

namespace Semantics

variable {w w₁ w₂ : World}

theorem World.Changes.refl (w : World) : w.Changes w := ⟨.refl _, .refl _⟩

theorem World.Changes.trans (h₁ : w.Changes w₁) (h₂ : w₁.Changes w₂) : w.Changes w₂ :=
  ⟨h₁.globals.trans h₂.globals, h₁.sink.trans h₂.sink⟩

theorem carryOut_eq (b : Builtin) (vs : List Value) (w : World) :
    carryOut b vs w = (((b.routine.carryOut vs).runOn w.sink).1.mapError haltOf,
      { w with sink := ((b.routine.carryOut vs).runOn w.sink).2 }) := rfl

theorem changes_carryOut (b : Builtin) (vs : List Value) (w : World) :
    w.Changes (carryOut b vs w).2 :=
  ⟨.refl _, Routine.extends_carryOut b.routine vs w.sink⟩

theorem changes_assign {ρ ρ' : Scope} {x : String} {v : Value}
    (h : assign ρ w x v = .ok (ρ', w₁)) : w.Changes w₁ := by
  unfold assign at h
  split at h
  · obtain ⟨ρ₁, -, hw⟩ := map_eq_ok.mp h
    cases hw
    exact .refl w
  · obtain ⟨globals, hglobals, hw⟩ := map_eq_ok.mp h
    cases hw
    exact ⟨Scope.updates_of_assign (mapError_eq_ok.mp hglobals), .refl _⟩

end Semantics

/-! ## Actions -/

namespace Eval

variable {α β σ : Type} {move : Machine → σ → Machine} {world : σ → World} {x : Eval α}

/-- However it ends, the action changes nothing of the machine but what `move` sets, and the world
as an evaluation may. -/
def Changes (move : Machine → σ → Machine) (world : σ → World) (x : Eval α) : Prop :=
  ∀ m s, ∃ r t, x.runOn (move m s) = (r, move m t) ∧ (world s).Changes (world t)

/-- The action changes the world only. -/
abbrev ChangesWorld (x : Eval α) : Prop := Changes Machine.withWorld id x

/-- The action changes the scope of the active call and the world only. -/
abbrev ChangesCall (x : Eval α) : Prop := Changes Machine.inCall Prod.snd x

theorem changes_of_same {r : Machine → σ → Except Halt α}
    (h : ∀ m s, x.runOn (move m s) = (r m s, move m s)) : Changes move world x :=
  fun m s => ⟨r m s, s, h m s, .refl _⟩

theorem Changes.bind {f : α → Eval β} (hx : Changes move world x)
    (hf : ∀ a, Changes move world (f a)) : Changes move world (x >>= f) := by
  intro m s
  obtain ⟨r, t, hrun, hst⟩ := hx m s
  cases r with
  | error h => exact ⟨.error h, t, runOn_bind_error hrun, hst⟩
  | ok a =>
    obtain ⟨r, u, hrun', htu⟩ := hf a m t
    exact ⟨r, u, (runOn_bind_ok hrun).trans hrun', hst.trans htu⟩

theorem sequential_changes (move : Machine → σ → Machine) (world : σ → World) :
    Sequential fun _ x _ => Changes move world x where
  pure a := changes_of_same fun _ _ => runOn_pure a _
  fail e := changes_of_same fun _ _ => runOn_fail e _
  bind := Changes.bind

/-- The machine that an action leaves that changes the world only. -/
theorem ChangesWorld.exists_eq (hx : ChangesWorld x) (m : Machine) :
    ∃ w, (x.runOn m).2 = m.withWorld w ∧ m.world.Changes w := by
  obtain ⟨r, w, hrun, hw⟩ := hx m m.world
  exact ⟨w, congrArg Prod.snd hrun, hw⟩

theorem ChangesWorld.extends (hx : ChangesWorld x) (m : Machine) :
    m.sink.Extends (x.runOn m).2.sink := by
  obtain ⟨w, hm, hw⟩ := hx.exists_eq m
  rw [hm]
  exact hw.sink

theorem ChangesWorld.changesCall (hx : ChangesWorld x) : ChangesCall x := by
  intro m s
  obtain ⟨r, w, hrun, hsw⟩ := hx (m.inCall s) s.2
  exact ⟨r, (s.1, w), hrun, hsw⟩

theorem ChangesWorld.nested (hx : ChangesWorld x) : ChangesWorld (nested x) := by
  intro m w
  by_cases hfull : m.limits.evaluations ≤ m.depth
  · exact ⟨_, w, runOn_nested_full hfull, .refl w⟩
  · obtain ⟨r, w', hrun, hw⟩ := hx { m with depth := m.depth + 1 } w
    exact ⟨r, w', runOn_nested_room (m := m.withWorld w) hfull hrun, hw⟩

theorem ChangesCall.inFrame (hx : ChangesCall x) : ChangesWorld (inFrame x) := by
  intro m w
  obtain ⟨r, t, hrun, hw⟩ := hx m ({}, w)
  exact ⟨r, t.2, runOn_inFrame_of hrun, hw⟩

theorem changesWorld_callBuiltin (b : Builtin) (vs : List Value) :
    ChangesWorld (callBuiltin b vs) := by
  intro m w
  have hrun := runOn_callBuiltin b vs m w
  split at hrun
  · exact ⟨_, _, hrun, changes_carryOut b vs w⟩
  · exact ⟨_, _, hrun, .refl w⟩

theorem changesWorld_allowCall (f : Function) (vs : List Value) :
    ChangesWorld (allowCall f vs) := by
  intro m w
  obtain ⟨r, hrun⟩ := exists_runOn_allowCall f vs m.limits.calls m.frames.length
  exact ⟨r, w, hrun _ rfl rfl, .refl w⟩

theorem changesCall_declare (y : String) (v : Value) (mutability : Mutability) :
    ChangesCall (declare y v mutability) := by
  rintro m ⟨ρ, w⟩
  have hrun := runOn_declare m ρ w y v mutability
  cases hρ : ρ.declare y v mutability with
  | ok ρ₁ =>
    rw [hρ] at hrun
    exact ⟨_, (ρ₁, w), hrun, .refl w⟩
  | error e =>
    rw [hρ] at hrun
    exact ⟨_, (ρ, w), hrun, .refl w⟩

theorem changesCall_assign (y : String) (v : Value) : ChangesCall (assign y v) := by
  rintro m ⟨ρ, w⟩
  have hrun := runOn_assign m ρ w y v
  cases hs : Semantics.assign ρ w y v with
  | ok s =>
    rw [hs] at hrun
    exact ⟨_, s, hrun, changes_assign hs⟩
  | error e =>
    rw [hs] at hrun
    exact ⟨_, (ρ, w), hrun, .refl w⟩

/-! ## Evaluations -/

theorem simulation_changes :
    Simulation (fun _ _ x _ => ChangesWorld x) (fun _ _ x _ => ChangesCall x) where
  expressions _ := sequential_changes _ _
  statements _ := sequential_changes _ _
  expression := ChangesWorld.changesCall
  resolve _ x := changes_of_same fun _ _ => runOn_resolve x _
  callee _ x := changes_of_same fun _ _ => runOn_callee x _
  callBuiltin _ := changesWorld_callBuiltin
  allowCall _ := changesWorld_allowCall
  declare _ := changesCall_declare
  assign _ := changesCall_assign
  nested := ChangesWorld.nested
  inFrame := ChangesCall.inFrame

theorem changesWorld_throw (h : Halt) : ChangesWorld (throw h : Eval α) :=
  changes_of_same fun _ _ => runOn_throw h _

/-- Expressions and calls change nothing but the world, with any fuel. -/
theorem changesWorld_eval (fuel : Nat) :
    (∀ e, ChangesWorld (expr fuel e)) ∧ ∀ f vs, ChangesWorld (call fuel f vs) :=
  simulation_changes.levels_same (changesWorld_throw _).nested fuel

theorem changesWorld_node (fuel : Nat) (e : Expr) : ChangesWorld (node (expr fuel) (call fuel) e) :=
  simulation_changes.node_same (changesWorld_throw _).nested fuel e

theorem changesCall_enter (fuel : Nat) (f : Function) (vs : List Value) :
    ChangesCall (enter (expr fuel) f vs) :=
  simulation_changes.enter_same (changesWorld_throw _).nested fuel f vs

theorem changesWorld_value (e : Expr) : ChangesWorld (value e) := fun m w =>
  (changesWorld_eval (m.withWorld w).levelsLeft).1 e m w

/-- However it ends, the evaluation of an expression leaves the machine as it was, with the scopes of
the active calls and the depth. It only gives mutable global variables other values and adds output at
the end. -/
theorem runOn_value_frame (e : Expr) (m : Machine) :
    ∃ (globals : Scope) (bytes : ByteArray),
      ((value e).runOn m).2 = { m with globals, sink := m.sink.append bytes } ∧
      ∀ x, globals.get? x = m.globals.get? x ∨
        ∃ v w, m.globals.get? x = some ⟨v, .mutable⟩ ∧ globals.get? x = some ⟨w, .mutable⟩ := by
  obtain ⟨w, hm, hchanges⟩ := (changesWorld_value e).exists_eq m
  obtain ⟨bytes, hsink⟩ := hchanges.sink
  refine ⟨w.globals, bytes, ?_, hchanges.globals.eq_or_mutable⟩
  rw [hm, Machine.withWorld, hsink]
  rfl

/-! ## Programs -/

/-- However it ends, the action only adds to the output. -/
def Grows (x : Eval α) : Prop := ∀ m : Machine, m.sink.Extends (x.runOn m).2.sink

theorem Grows.bind {f : α → Eval β} (hx : Grows x) (hf : ∀ a, Grows (f a)) : Grows (x >>= f) := by
  intro m
  have hfirst := hx m
  rw [runOn_bind]
  rcases hrun : x.runOn m with ⟨e | a, m'⟩ <;> rw [hrun] at hfirst
  · exact hfirst
  · exact hfirst.trans (hf a m')

theorem grows_update {step : Machine → Except RuntimeError Machine}
    (h : ∀ m m', step m = .ok m' → m'.sink = m.sink) : Grows (update step) := by
  intro m
  rw [runOn_update]
  cases hs : step m with
  | ok m' =>
    change m.sink.Extends m'.sink
    rw [h m m' hs]
    exact .refl _
  | error e => exact .refl _

theorem Grows.nested {x : Eval α} (hx : Grows x) : Grows (Eval.nested x) := by
  intro m
  rw [runOn_nested]
  split
  · exact .refl _
  · exact hx { m with depth := m.depth + 1 }

theorem programSimulation_grows : ProgramSimulation fun _ x _ => Grows x where
  pure _ _ := .refl _
  fail _ _ := .refl _
  bind := Grows.bind
  value e := (changesWorld_value e).extends
  declareFunction _ := grows_update fun _ _ h => by
    obtain ⟨-, rfl⟩ := Machine.declareFunction_eq_ok_iff.mp h
    rfl
  declareGlobal _ _ _ := grows_update fun _ _ h => by
    obtain ⟨-, rfl⟩ := Machine.declareGlobal_eq_ok_iff.mp h
    rfl

theorem grows_program (p : Program) : Grows (program p) := programSimulation_grows.program p

end Eval

end Scriptlet
