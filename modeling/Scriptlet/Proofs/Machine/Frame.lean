-- SUMMARY: What is evaluated depends on and changes only what the names that occur in it stand for.
import Scriptlet.Proofs.Machine.Texts

/-!
# Frames

Two machines may differ in what the names outside of a set stand for, and in what was
written before. As long as the functions that are found by names of the set have only such
names themselves, an evaluation that has only such names does the same on both machines,
writes the same, and leaves alone what the other names stand for.
-/
namespace Scriptlet

open Scriptlet.Action

namespace Machine

variable {N : String → Prop} {s s' : Sink} {m m' n n' : Machine} {x : String}

/-! ## What is left alone -/

/-- From the first machine to the second, nothing is changed that names outside of `N` stand for. -/
structure Frame (N : String → Prop) (m n : Machine) : Prop where
  builtins : n.builtins = m.builtins
  limits : n.limits = m.limits
  globals : ∀ x, ¬ N x → n.globals.get? x = m.globals.get? x
  functions : ∀ x, ¬ N x → n.functions.get? x = m.functions.get? x

namespace Frame

theorem refl (m : Machine) : m.Frame N m := ⟨rfl, rfl, fun _ _ => rfl, fun _ _ => rfl⟩

theorem trans (h : m.Frame N n) (h' : n.Frame N n') : m.Frame N n' where
  builtins := h'.builtins.trans h.builtins
  limits := h'.limits.trans h.limits
  globals x hx := (h'.globals x hx).trans (h.globals x hx)
  functions x hx := (h'.functions x hx).trans (h.functions x hx)

theorem get?_insert {α : Type} (t : Table α) (a : α) (hx : N x) :
    ∀ y, ¬ N y → (t.insert x a).get? y = t.get? y := by
  intro y hy
  have hne : y ≠ x := by
    rintro rfl
    exact hy hx
  rw [Table.get?_insert, if_neg hne]

theorem insertGlobal (m : Machine) (b : Binding) (hx : N x) :
    m.Frame N { m with globals := m.globals.insert x b } :=
  ⟨rfl, rfl, get?_insert _ _ hx, fun _ _ => rfl⟩

theorem insertFunction (m : Machine) (f : Function) (hx : N x) :
    m.Frame N { m with functions := m.functions.insert x f } :=
  ⟨rfl, rfl, fun _ _ => rfl, get?_insert _ _ hx⟩

end Frame

/-! ## What is looked at -/

/-- The machines agree on what the names in `N` stand for, on what is active, and on what was written since
their sinks were `s` and `s'`. The functions that are found by names in `N` have only names in `N`. -/
structure AgreeOn (N : String → Prop) (s s' : Sink) (m m' : Machine) : Prop where
  builtins : m'.builtins = m.builtins
  limits : m'.limits = m.limits
  frames : m'.frames = m.frames
  depth : m'.depth = m.depth
  globals : ∀ x, N x → m'.globals.get? x = m.globals.get? x
  functions : ∀ x, N x → m'.functions.get? x = m.functions.get? x
  within : ∀ x f, N x → m.functions.get? x = some f → f.Within N
  written : ∃ bytes, m.sink = s.append bytes ∧ m'.sink = s'.append bytes

namespace AgreeOn

/-- A machine agrees with itself. -/
theorem self (h : ∀ x f, N x → m.functions.get? x = some f → f.Within N) :
    AgreeOn N m.sink m.sink m m where
  builtins := rfl
  limits := rfl
  frames := rfl
  depth := rfl
  globals _ _ := rfl
  functions _ _ := rfl
  within := h
  written := ⟨.empty, (Sink.append_empty _).symm, (Sink.append_empty _).symm⟩

theorem symm (h : AgreeOn N s s' m m') : AgreeOn N s' s m' m where
  builtins := h.builtins.symm
  limits := h.limits.symm
  frames := h.frames.symm
  depth := h.depth.symm
  globals x hx := (h.globals x hx).symm
  functions x hx := (h.functions x hx).symm
  within x f hx hf := h.within x f hx ((h.functions x hx).symm.trans hf)
  written := by
    obtain ⟨bytes, hbytes, hbytes'⟩ := h.written
    exact ⟨bytes, hbytes', hbytes⟩

theorem isCallable (h : AgreeOn N s s' m m') (hx : N x) : m'.isCallable x = m.isCallable x := by
  simp only [Machine.isCallable, Table.contains, h.functions x hx, h.builtins]

theorem isTaken (h : AgreeOn N s s' m m') (hx : N x) : m'.isTaken x = m.isTaken x := by
  simp only [Machine.isTaken, Table.contains, h.globals x hx, h.isCallable hx]

theorem resolve (h : AgreeOn N s s' m m') (hx : N x) : m'.resolve x = m.resolve x := by
  have hlocal : m'.local? x = m.local? x := by rw [local?, local?, h.frames]
  have hglobal : m'.global? x = m.global? x := by
    rw [global?, global?, Scope.value?, Scope.value?, h.globals x hx]
  rw [Machine.resolve, Machine.resolve, hlocal, hglobal, h.isCallable hx]

theorem callee (h : AgreeOn N s s' m m') (hx : N x) : m'.callee x = m.callee x := by
  simp only [Machine.callee, h.functions x hx, h.builtins, h.resolve hx]

theorem levelsLeft (h : AgreeOn N s s' m m') : m'.levelsLeft = m.levelsLeft := by
  rw [Machine.levelsLeft, Machine.levelsLeft, h.limits, h.depth]

theorem setFrames (h : AgreeOn N s s' m m') (frames : List Scope) :
    AgreeOn N s s' { m with frames } { m' with frames } := { h with frames := rfl }

theorem setDepth (h : AgreeOn N s s' m m') (depth : Nat) :
    AgreeOn N s s' { m with depth } { m' with depth } := { h with depth := rfl }

theorem get?_insert {α : Type} {t t' : Table α} (h : ∀ y, N y → t'.get? y = t.get? y) (x : String)
    (a : α) : ∀ y, N y → (t'.insert x a).get? y = (t.insert x a).get? y := by
  intro y hy
  rw [Table.get?_insert, Table.get?_insert, h y hy]

theorem insertGlobal (h : AgreeOn N s s' m m') (x : String) (b : Binding) :
    AgreeOn N s s' { m with globals := m.globals.insert x b }
      { m' with globals := m'.globals.insert x b } := { h with globals := get?_insert h.globals x b }

theorem insertFunction (h : AgreeOn N s s' m m') {f : Function} (hf : f.Within N) :
    AgreeOn N s s' { m with functions := m.functions.insert f.ident f }
      { m' with functions := m'.functions.insert f.ident f } := by
  refine { h with functions := get?_insert h.functions f.ident f, within := fun y g hy hg => ?_ }
  rw [Table.get?_insert] at hg
  split at hg
  · cases hg
    exact hf
  · exact h.within y g hy hg

end AgreeOn

/-! ## Bindings -/

/-- What the same step gives on machines that agree: the same fault, or machines that agree. -/
inductive SameStep (N : String → Prop) (s s' : Sink) (m : Machine) :
    Except RuntimeError Machine → Except RuntimeError Machine → Prop
  | fault (e : RuntimeError) : SameStep N s s' m (.error e) (.error e)
  | step {n n' : Machine} : AgreeOn N s s' n n' → m.Frame N n → SameStep N s s' m (.ok n) (.ok n')

namespace AgreeOn

variable (h : AgreeOn N s s' m m')

include h

/-- A step that only sets the scopes of the active calls. -/
theorem sameStep_frames (result : Except RuntimeError Scope) (others : List Scope) :
    SameStep N s s' m (result.map fun scope => { m with frames := scope :: others })
      (result.map fun scope => { m' with frames := scope :: others }) := by
  cases result with
  | error e => exact .fault e
  | ok scope => exact .step (h.setFrames _) ⟨rfl, rfl, fun _ _ => rfl, fun _ _ => rfl⟩

theorem sameStep_insert (hx : N x) (b : Binding) :
    SameStep N s s' m (.ok { m with globals := m.globals.insert x b })
      (.ok { m' with globals := m'.globals.insert x b }) :=
  .step (h.insertGlobal x b) (.insertGlobal m b hx)

theorem declare (hx : N x) (v : Value) (mutability : Mutability) :
    SameStep N s s' m (m.declare x v mutability) (m'.declare x v mutability) := by
  cases hframes : m.frames with
  | nil =>
    rw [declare_global hframes, declare_global (h.frames.trans hframes), Scope.declare,
      Scope.declare, Table.contains, Table.contains, h.globals x hx]
    split
    · exact .fault _
    · exact h.sameStep_insert hx _
  | cons scope others =>
    rw [declare_local hframes, declare_local (h.frames.trans hframes)]
    exact h.sameStep_frames _ others

theorem assign (hx : N x) (v : Value) : SameStep N s s' m (m.assign x v) (m'.assign x v) := by
  by_cases hnone : ∀ scope ∈ m.frames.head?, scope.contains x = false
  · rw [assign_global hnone, assign_global (by rwa [h.frames]), Scope.assign, Scope.assign,
      h.globals x hx]
    split
    · exact h.sameStep_insert hx _
    · exact .fault _
    · exact .fault _
  · cases hframes : m.frames with
    | nil => simp [hframes] at hnone
    | cons scope others =>
      have hcontains : scope.contains x = true := by simpa [hframes] using hnone
      rw [assign_local hframes hcontains, assign_local (h.frames.trans hframes) hcontains]
      exact h.sameStep_frames _ others

theorem declareGlobal (hx : N x) (v : Value) (mutability : Mutability) :
    SameStep N s s' m (m.declareGlobal x v mutability) (m'.declareGlobal x v mutability) := by
  cases htaken : m.isTaken x with
  | true =>
    rw [Machine.declareGlobal, Machine.declareGlobal, h.isTaken hx, htaken]
    exact .fault _
  | false =>
    have htaken' : m'.isTaken x = false := (h.isTaken hx).trans htaken
    rw [declareGlobal_eq_ok_iff.mpr ⟨htaken, rfl⟩, declareGlobal_eq_ok_iff.mpr ⟨htaken', rfl⟩]
    exact h.sameStep_insert hx _

theorem declareFunction {f : Function} (hf : f.Within N) :
    SameStep N s s' m (m.declareFunction f) (m'.declareFunction f) := by
  rw [Machine.declareFunction, Machine.declareFunction, h.isTaken hf.parts.ident]
  split
  · exact .fault _
  · exact .step (h.insertFunction hf) (.insertFunction m f hf.parts.ident)

end AgreeOn

end Machine

/-! ## Actions -/

namespace Eval

open Machine (AgreeOn Frame SameStep)

variable {α β : Type} {N : String → Prop} {s s' : Sink} {x y : Eval α}

/-- On machines that agree on the names in `N` the actions end in the same way, write the same and leave
machines that agree. What other names stand for is left alone. -/
def LocalTo (N : String → Prop) (s s' : Sink) ⦃α : Type⦄ (x y : Eval α) : Prop :=
  ∀ m m', AgreeOn N s s' m m' → ∃ r n n', x.runOn m = (r, n) ∧ y.runOn m' = (r, n') ∧
    AgreeOn N s s' n n' ∧ m.Frame N n

theorem localTo_of_same {r : Machine → Except Halt α} (hx : ∀ m, x.runOn m = (r m, m))
    (hr : ∀ m m', AgreeOn N s s' m m' → r m' = r m) : LocalTo N s s' x x :=
  fun m m' h => ⟨r m, m, m', hx m, (hx m').trans (by rw [hr m m' h]), h, .refl m⟩

theorem chaining_localTo : Chaining (LocalTo N s s') where
  pure a := localTo_of_same (fun _ => runOn_pure a _) fun _ _ _ => rfl
  bind hx hf m m' h := by
    obtain ⟨r, n, n', hrun, hrun', hagree, hframe⟩ := hx m m' h
    cases r with
    | error e =>
      exact ⟨.error e, n, n', runOn_bind_error hrun, runOn_bind_error hrun', hagree, hframe⟩
    | ok a =>
      obtain ⟨r, k, k', hk, hk', hagree', hframe'⟩ := hf a n n' hagree
      exact ⟨r, k, k', (runOn_bind_ok hrun).trans hk, (runOn_bind_ok hrun').trans hk', hagree',
        hframe.trans hframe'⟩

theorem localTo_lift (result : Except RuntimeError α) :
    LocalTo N s s' (lift result) (lift result) :=
  localTo_of_same (fun m => runOn_lift result m) fun _ _ _ => rfl

theorem localTo_update {step : Machine → Except RuntimeError Machine}
    (h : ∀ m m', AgreeOn N s s' m m' → SameStep N s s' m (step m) (step m')) :
    LocalTo N s s' (update step) (update step) := by
  intro m m' hagree
  have hstep := h m m' hagree
  have hrun := runOn_update step m
  have hrun' := runOn_update step m'
  generalize step m = r at *
  generalize step m' = r' at *
  cases hstep with
  | fault e => exact ⟨_, m, m', hrun, hrun', hagree, .refl m⟩
  | step hagree' hframe => exact ⟨_, _, _, hrun, hrun', hagree', hframe⟩

theorem localTo_resolve {z : String} (hz : N z) : LocalTo N s s' (resolve z) (resolve z) :=
  localTo_of_same (runOn_resolve z) fun _ _ h => by rw [h.resolve hz]

theorem localTo_callee_bind {z : String} (hz : N z) {f g : Function ⊕ Builtin → Eval α}
    (hfunction : ∀ k : Function, k.Within N → LocalTo N s s' (f (.inl k)) (g (.inl k)))
    (hbuiltin : ∀ b, LocalTo N s s' (f (.inr b)) (g (.inr b))) :
    LocalTo N s s' (callee z >>= f) (callee z >>= g) := by
  intro m m' h
  have hrun := runOn_callee z m
  have hrun' := runOn_callee z m'
  rw [h.callee hz] at hrun'
  have hwithin : ∀ k, m.callee z = .ok (.inl k) → k.Within N := fun k hk =>
    h.within z k hz (Machine.get?_of_callee hk)
  generalize m.callee z = result at hrun hrun' hwithin
  rcases result with e | k | b
  · exact ⟨_, m, m', runOn_bind_error hrun, runOn_bind_error hrun', h, .refl m⟩
  · rw [runOn_bind_ok hrun, runOn_bind_ok hrun']
    exact hfunction k (hwithin k rfl) m m' h
  · rw [runOn_bind_ok hrun, runOn_bind_ok hrun']
    exact hbuiltin b m m' h

theorem localTo_allowCall (f : Function) (vs : List Value) :
    LocalTo N s s' (allowCall f vs) (allowCall f vs) := by
  intro m m' h
  obtain ⟨r, hrun⟩ := exists_runOn_allowCall f vs m.limits.calls m.frames.length
  exact ⟨r, m, m', hrun m rfl rfl, hrun m' (by rw [h.limits]) (by rw [h.frames]), h, .refl m⟩

theorem localTo_callBuiltin (hs : s.capacity = none) (hs' : s'.capacity = none) (b : Builtin)
    (vs : List Value) : LocalTo N s s' (callBuiltin b vs) (callBuiltin b vs) := by
  intro m m' h
  obtain ⟨r, text, hrun⟩ := exists_runOn_callBuiltin b vs
  obtain ⟨before, hsink, hsink'⟩ := h.written
  refine ⟨r, _, _, hrun m (by rw [hsink]; exact hs), hrun m' (by rw [hsink']; exact hs'),
    { h with written := ⟨before ++ text.toByteArray, ?_, ?_⟩ }, ⟨rfl, rfl, fun _ _ => rfl, fun _ _ => rfl⟩⟩
  · rw [← Sink.append_append, ← hsink]
  · rw [← Sink.append_append, ← hsink']

theorem LocalTo.nested (hx : LocalTo N s s' x y) : LocalTo N s s' (nested x) (nested y) := by
  intro m m' h
  by_cases hfull : m.limits.evaluations ≤ m.depth
  · have hfull' : m'.limits.evaluations ≤ m'.depth := by rwa [h.limits, h.depth]
    refine ⟨_, m, m', runOn_nested_full hfull, ?_, h, .refl m⟩
    rw [runOn_nested_full hfull', h.limits]
  · have hroom' : ¬ m'.limits.evaluations ≤ m'.depth := by rwa [h.limits, h.depth]
    obtain ⟨r, n, n', hrun, hrun', hagree, hframe⟩ :=
      hx { m with depth := m.depth + 1 } { m' with depth := m'.depth + 1 }
        (by rw [h.depth]; exact h.setDepth _)
    refine ⟨r, _, _, runOn_nested_room hfull hrun, runOn_nested_room hroom' hrun', ?_,
      ⟨hframe.builtins, hframe.limits, hframe.globals, hframe.functions⟩⟩
    rw [hagree.depth]
    exact hagree.setDepth _

theorem LocalTo.inFrame (hx : LocalTo N s s' x y) : LocalTo N s s' (inFrame x) (inFrame y) := by
  intro m m' h
  obtain ⟨r, n, n', hrun, hrun', hagree, hframe⟩ :=
    hx { m with frames := {} :: m.frames } { m' with frames := {} :: m'.frames }
      (by rw [h.frames]; exact h.setFrames _)
  refine ⟨r, _, _, runOn_inFrame_of hrun, runOn_inFrame_of hrun', ?_,
    ⟨hframe.builtins, hframe.limits, hframe.globals, hframe.functions⟩⟩
  rw [hagree.frames]
  exact hagree.setFrames _

/-! ## Evaluations -/

section
variable (hs : s.capacity = none) (hs' : s'.capacity = none)
include hs hs'

theorem simulationOn_localTo :
    SimulationOn N (fun _ => True) (fun _ => LocalTo N s s') (fun _ => LocalTo N s s') where
  expressions _ := chaining_localTo
  statements _ := chaining_localTo
  expression := id
  resolve _ _ := localTo_resolve
  unary _ op v := localTo_lift (op.apply v)
  binary _ op u v := localTo_lift (op.apply u v)
  valueCalled _ _ := localTo_of_same (fun _ => runOn_fail _ _) fun _ _ _ => rfl
  called hz _ _ _ hfunction hbuiltin := localTo_callee_bind hz hfunction fun b => hbuiltin b trivial
  callBuiltin _ b _ := localTo_callBuiltin hs hs' b
  allowCall _ := localTo_allowCall
  declare _ _ hz v mutability := localTo_update fun _ _ h => h.declare hz v mutability
  assign _ _ hz v := localTo_update fun _ _ h => h.assign hz v
  nested := LocalTo.nested
  inFrame := LocalTo.inFrame

theorem localTo_value {e : Expr} (he : e.Within N) : LocalTo N s s' (value e) (value e) := by
  intro m m' h
  have hstarved : LocalTo N s s' (throw .starved : Eval Value) (throw .starved) :=
    localTo_of_same (fun _ => runOn_throw _ _) fun _ _ _ => rfl
  obtain ⟨hexpr, -⟩ := (simulationOn_localTo hs hs').levels_same hstarved.nested m.levelsLeft
  have hrun' : (value e).runOn m' = (expr m'.levelsLeft e).runOn m' := rfl
  rw [hrun', h.levelsLeft]
  exact hexpr e he m m' h

theorem programSimulationOn_localTo : ProgramSimulationOn N (LocalTo N s s') where
  toChaining := chaining_localTo
  value _ he := localTo_value hs hs' he
  declareFunction _ hf := localTo_update fun _ _ h => h.declareFunction hf
  declareGlobal _ v mutability hz := localTo_update fun _ _ h => h.declareGlobal hz v mutability

theorem localTo_program {p : Program} (hp : p.Within N) :
    LocalTo N s s' (program p) (program p) := (programSimulationOn_localTo hs hs').program hp

end

end Eval

/-! ## Runs -/

namespace Machine

variable {N : String → Prop} {s s' : Sink} {m m' : Machine} {p : Program}

/-- On machines that agree on the names of a program it ends in the same way, writes the same and leaves
machines that agree. It leaves alone what other names stand for. -/
theorem AgreeOn.run (hs : s.capacity = none) (hs' : s'.capacity = none) (hflush : s'.flush = s.flush)
    (h : AgreeOn N s s' m m') (hp : p.Within N) :
    (m'.run p).1 = (m.run p).1 ∧ AgreeOn N s s' (m.run p).2 (m'.run p).2 ∧ m.Frame N (m.run p).2 := by
  obtain ⟨r, n, n', hrun, hrun', hagree, hframe⟩ := Eval.localTo_program hs hs' hp m m' h
  obtain ⟨bytes, hsink, hsink'⟩ := hagree.written
  have hended : n'.sink.flush = n.sink.flush := by
    rw [hsink, hsink']
    exact hflush
  have hresult : n'.resultOf r = n.resultOf r := by
    rcases r with (_ | _ | _) | _ <;> simp only [resultOf, hagree.limits]
  refine ⟨?_, ?_, ?_⟩
  · rw [run_fst, run_fst, hrun, hrun', hended, hresult]
  · rw [run_snd, run_snd, hrun, hrun']
    exact { hagree with frames := rfl, depth := rfl }
  · rw [run_snd, hrun]
    exact ⟨hframe.builtins, hframe.limits, hframe.globals, hframe.functions⟩

end Machine

end Scriptlet
