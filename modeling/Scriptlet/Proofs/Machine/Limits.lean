-- SUMMARY: Wider limits change nothing for a run that was not cut short, and only add output to one that was.
import Scriptlet.Proofs.Machine.Effects
import Scriptlet.Proofs.Machine.Fuel
import Scriptlet.Proofs.Semantics.Agreement

/-!
# Wider limits

A program is run twice from one machine, the second time under limits that are at
least as wide. The two runs go together until the first one ends: if a limit ended it,
the second goes on from there and adds output at most; if not, the second ends in the
same way. `Outlasts` says so of two actions. They need not be given the same fuel,
since the second one is given more.
-/
namespace Scriptlet

open Scriptlet.Action Semantics

/-! ## Actions under two pairs of limits -/

namespace Eval

variable {α β : Type} {few many : Limits} {x y : Eval α}

/-- What the first action does under the limits `few`, the second one does under `many`; where the
first is ended by a limit, the second goes on, and adds to the output. -/
structure Outlasts (few many : Limits) ⦃α : Type⦄ (x y : Eval α) : Prop where
  /-- The second action only adds to the output, from wherever it goes on. -/
  grows (m : Machine) : m.sink.Extends (y.runOn m).2.sink
  follows (m : Machine) : ∃ (r : Except Halt α) (m' : Machine),
    x.runOn (m.under few) = (r, m'.under few) ∧
      (y.runOn (m.under many) = (r, m'.under many) ∨
        atLimit r = true ∧ m'.sink.Extends (y.runOn (m.under many)).2.sink)

theorem Outlasts.bind {f g : α → Eval β} (hx : Outlasts few many x y)
    (hf : ∀ a, Outlasts few many (f a) (g a)) : Outlasts few many (x >>= f) (y >>= g) where
  grows m := by
    have hgrows := hx.grows m
    rw [runOn_bind]
    rcases hrun : y.runOn m with ⟨e | a, m'⟩ <;> rw [hrun] at hgrows
    · exact hgrows
    · exact hgrows.trans ((hf a).grows m')
  follows m := by
    obtain ⟨r, m', hrun, hy⟩ := hx.follows m
    cases r with
    | ok a =>
      obtain ⟨r, m'', hf, hg⟩ := (hf a).follows m'
      have hy : y.runOn (m.under many) = (.ok a, m'.under many) := by simpa [atLimit] using hy
      exact ⟨r, m'', (runOn_bind_ok hrun).trans hf, by rwa [runOn_bind_ok hy]⟩
    | error h =>
      refine ⟨.error h, m', runOn_bind_error hrun, ?_⟩
      rw [atLimit_error_cast (β := β)] at hy
      obtain hy | ⟨hlimit, hy⟩ := hy
      · exact .inl (runOn_bind_error hy)
      · refine .inr ⟨hlimit, hy.trans ?_⟩
        rw [runOn_bind]
        rcases y.runOn (m.under many) with ⟨e | a, m''⟩
        · exact .refl _
        · exact (hf a).grows m''

/-- An action that no limits matter to, and that only adds to the output. -/
theorem outlasts_of_run (r : Machine → Except Halt α) (next : Machine → Machine)
    (hrun : ∀ m limits, x.runOn (m.under limits) = (r m, (next m).under limits))
    (hgrows : ∀ m : Machine, m.sink.Extends (next m).sink) : Outlasts few many x x where
  grows m := by
    rw [show m = m.under m.limits from rfl, hrun]
    exact hgrows m
  follows m := ⟨r m, next m, hrun m few, .inl (hrun m many)⟩

theorem outlasts_of_same {r : Machine → Except Halt α}
    (h : ∀ m limits, x.runOn (m.under limits) = (r m, m.under limits)) : Outlasts few many x x :=
  outlasts_of_run r id h fun m => .refl m.sink

theorem sequential_outlasts (few many : Limits) : Sequential (Outlasts few many) where
  pure a := outlasts_of_same fun _ _ => runOn_pure a _
  fail e := outlasts_of_same fun _ _ => runOn_fail e _
  bind := Outlasts.bind

/-! ## Steps -/

theorem outlasts_update {step : Machine → Except RuntimeError Machine}
    (hlimits : ∀ m limits, step (m.under limits) = (step m).map (·.under limits))
    (hsink : ∀ m m', step m = .ok m' → m'.sink = m.sink) :
    Outlasts few many (update step) (update step) := by
  refine outlasts_of_run (fun m => ((step m).map fun _ => ()).mapError .error)
    (fun m => (step m).toOption.getD m) (fun m limits => ?_) fun m => ?_
  · rw [runOn_update, hlimits]
    cases step m <;> rfl
  · cases hs : step m with
    | ok m' =>
      change m.sink.Extends m'.sink
      rw [hsink m m' hs]
      exact .refl _
    | error e => exact .refl _

theorem inert_under (limits : Limits) : Machine.Inert (·.under limits) :=
  ⟨⟨fun _ => rfl, fun _ => rfl, fun _ _ => rfl, fun _ _ => rfl⟩, fun _ => rfl, fun _ => rfl,
    fun _ _ => rfl⟩

theorem outlasts_declare (z : String) (v : Value) (mutability : Mutability) :
    Outlasts few many (declare z v mutability) (declare z v mutability) := by
  refine outlasts_update (fun m limits => (inert_under limits).declare m z v mutability)
    fun m m' h => ?_
  obtain ⟨globals, frames, rfl⟩ := exists_eq_of_declare h
  rfl

theorem outlasts_assign (z : String) (v : Value) :
    Outlasts few many (assign z v) (assign z v) := by
  refine outlasts_update (fun m limits => (inert_under limits).assign m z v) fun m m' h => ?_
  obtain ⟨globals, frames, rfl⟩ := exists_eq_of_assign h
  rfl

theorem outlasts_callBuiltin (b : Builtin) (vs : List Value) :
    Outlasts few many (callBuiltin b vs) (callBuiltin b vs) := by
  by_cases ha : b.least ≤ vs.length ∧ vs.length ≤ b.greatest
  · refine outlasts_of_run (fun m => (carryOut b vs m.world).1)
      (fun m => m.withWorld (carryOut b vs m.world).2) (fun m limits => ?_)
      fun m => (changes_carryOut b vs m.world).sink
    exact (runOn_callBuiltin b vs (m.under limits) m.world).trans (if_pos ha)
  · exact outlasts_of_same fun m limits =>
      (runOn_callBuiltin b vs (m.under limits) m.world).trans (if_neg ha)

/-- A call that the narrower limits do not allow may be allowed by the wider ones. -/
theorem outlasts_allowCall (hcalls : few.calls ≤ many.calls) (f : Function) (vs : List Value) :
    Outlasts few many (allowCall f vs) (allowCall f vs) := by
  have hsame (m : Machine) : ((allowCall f vs).runOn m).2 = m := by
    obtain ⟨r, hrun⟩ := exists_runOn_allowCall f vs m.limits.calls m.frames.length
    rw [hrun m rfl rfl]
  refine ⟨fun m => by rw [hsame]; exact .refl _, fun m => ?_⟩
  have hfew := runOn_allowCall f vs (m.under few)
  have hmany := runOn_allowCall f vs (m.under many)
  by_cases ha : f.minArgs ≤ vs.length ∧ vs.length ≤ f.maxArgs
  · rw [if_pos ha] at hfew hmany
    by_cases hfull : few.calls ≤ m.frames.length
    · refine ⟨_, m, hfew.trans (if_pos hfull), .inr ⟨rfl, ?_⟩⟩
      rw [hsame]
      exact .refl _
    · have hroom : ¬ many.calls ≤ m.frames.length := by omega
      exact ⟨_, m, hfew.trans (if_neg hfull), .inl (hmany.trans (if_neg hroom))⟩
  · rw [if_neg ha] at hfew hmany
    exact ⟨_, m, hfew, .inl hmany⟩

theorem Outlasts.nested (hevaluations : few.evaluations ≤ many.evaluations)
    (h : Outlasts few many x y) : Outlasts few many (Eval.nested x) (Eval.nested y) := by
  refine ⟨Grows.nested h.grows, fun m => ?_⟩
  by_cases hfull : few.evaluations ≤ m.depth
  · exact ⟨_, m, runOn_nested_full hfull, .inr ⟨rfl, Grows.nested h.grows (m.under many)⟩⟩
  · have hroom : ¬ (m.under many).limits.evaluations ≤ (m.under many).depth := by
      change ¬ many.evaluations ≤ m.depth
      omega
    obtain ⟨r, m', hrun, hy⟩ := h.follows { m with depth := m.depth + 1 }
    refine ⟨r, { m' with depth := m'.depth - 1 },
      runOn_nested_room (m := m.under few) hfull hrun, ?_⟩
    obtain hy | ⟨hlimit, hy⟩ := hy
    · exact .inl (runOn_nested_room (m := m.under many) hroom hy)
    · refine .inr ⟨hlimit, ?_⟩
      rw [runOn_nested, if_neg hroom]
      exact hy

theorem Outlasts.inFrame (h : Outlasts few many x y) :
    Outlasts few many (Eval.inFrame x) (Eval.inFrame y) := by
  refine ⟨fun m => h.grows { m with frames := {} :: m.frames }, fun m => ?_⟩
  obtain ⟨r, m', hrun, hy⟩ := h.follows { m with frames := {} :: m.frames }
  refine ⟨r, { m' with frames := m'.frames.tail },
    runOn_inFrame_of (m := m.under few) hrun, ?_⟩
  obtain hy | ⟨hlimit, hy⟩ := hy
  · exact .inl (runOn_inFrame_of (m := m.under many) hy)
  · exact .inr ⟨hlimit, hy⟩

/-! ## Evaluations -/

section
variable (hcalls : few.calls ≤ many.calls) (hevaluations : few.evaluations ≤ many.evaluations)
include hcalls hevaluations

theorem simulation_outlasts :
    Simulation (fun _ => Outlasts few many) (fun _ => Outlasts few many) where
  expressions _ := sequential_outlasts few many
  statements _ := sequential_outlasts few many
  expression := id
  resolve _ z := outlasts_of_same (r := fun m => (m.resolve z).mapError .error)
    fun m limits => runOn_resolve z (m.under limits)
  callee _ z := outlasts_of_same (r := fun m => (m.callee z).mapError .error)
    fun m limits => runOn_callee z (m.under limits)
  callBuiltin _ := outlasts_callBuiltin
  allowCall _ := outlasts_allowCall hcalls
  declare _ := outlasts_declare
  assign _ := outlasts_assign
  nested := Outlasts.nested hevaluations
  inFrame := Outlasts.inFrame

omit hcalls hevaluations in
/-- An evaluation without fuel is ended by a limit, whatever it is that goes on from there. -/
theorem outlasts_starved (hgrows : ∀ m : Machine, m.sink.Extends (y.runOn m).2.sink) :
    Outlasts few many (nested (throw .starved)) y := by
  refine ⟨hgrows, fun m => ?_⟩
  by_cases hfull : few.evaluations ≤ m.depth
  · exact ⟨_, m, runOn_nested_full hfull, .inr ⟨rfl, hgrows (m.under many)⟩⟩
  · exact ⟨.error .starved, m, runOn_nested_room (m := m.under few) hfull (runOn_throw _ _),
      .inr ⟨rfl, hgrows (m.under many)⟩⟩

theorem outlasts_expr (n j : Nat) (e : Expr) : Outlasts few many (expr n e) (expr (j + n) e) := by
  have hcall {z : Eval Value} (hz : ChangesWorld z) (f : Function) (vs : List Value) :
      Outlasts few many (do allowCall f vs; nested (throw .starved)) (do allowCall f vs; z) :=
    (outlasts_allowCall hcalls f vs).bind fun _ => outlasts_starved hz.extends
  refine ((simulation_outlasts hcalls hevaluations).levels (j := j) (fun e => ?_)
    (fun f vs => ?_) n).1 e
  · exact outlasts_starved ((changesWorld_eval j).1 e).extends
  · cases j with
    | zero => exact hcall (changesWorld_throw _).nested f vs
    | succ j => exact hcall (changesCall_enter j f vs).inFrame.nested f vs

theorem outlasts_value (e : Expr) : Outlasts few many (value e) (value e) := by
  refine ⟨(changesWorld_value e).extends, fun m => ?_⟩
  have hfuel : (m.under many).levelsLeft =
      ((m.under many).levelsLeft - (m.under few).levelsLeft) + (m.under few).levelsLeft := by
    change many.evaluations - m.depth =
      ((many.evaluations - m.depth) - (few.evaluations - m.depth)) + (few.evaluations - m.depth)
    omega
  have h := (outlasts_expr hcalls hevaluations (m.under few).levelsLeft
    ((m.under many).levelsLeft - (m.under few).levelsLeft) e).follows m
  rwa [← hfuel] at h

theorem programSimulation_outlasts : ProgramSimulation (Outlasts few many) where
  toSequential := sequential_outlasts few many
  value := outlasts_value hcalls hevaluations
  declareFunction f := outlasts_update (fun m limits => (inert_under limits).declareFunction m f)
    fun m m' h => by
      obtain ⟨-, rfl⟩ := Machine.declareFunction_eq_ok_iff.mp h
      rfl
  declareGlobal z v mutability :=
    outlasts_update (fun m limits => (inert_under limits).declareGlobal m z v mutability)
      fun m m' h => by
      obtain ⟨-, rfl⟩ := Machine.declareGlobal_eq_ok_iff.mp h
      rfl

end

end Eval

/-! ## Runs -/

namespace Machine

variable {few many : Limits}

/-- What the limits of a machine say is not asked for unless they ended the evaluation. -/
theorem resultOf_congr {r : Except Halt Unit} (hr : atLimit r = false) (m m' : Machine) :
    m.resultOf r = m'.resultOf r := by
  match r with
  | .ok () | .error (.exit _) | .error (.error _) => rfl
  | .error .starved => cases hr

/-- What no limit ended goes to the same end under wider limits, and what a limit ended goes on. -/
theorem exists_runOn_program_under (hcalls : few.calls ≤ many.calls)
    (hevaluations : few.evaluations ≤ many.evaluations) (m : Machine) (p : Program) :
    ∃ (r : Except Halt Unit) (m' : Machine),
      (Eval.program p).runOn (m.under few) = (r, m'.under few) ∧
      (atLimit r = false → (Eval.program p).runOn (m.under many) = (r, m'.under many)) ∧
      m'.sink.Extends ((Eval.program p).runOn (m.under many)).2.sink := by
  obtain ⟨r, m', hfew, hmany⟩ :=
    ((Eval.programSimulation_outlasts hcalls hevaluations).program p).follows m
  refine ⟨r, m', hfew, fun hr => by simpa [hr] using hmany, ?_⟩
  obtain hmany | ⟨-, hmany⟩ := hmany
  · rw [hmany]
    exact .refl _
  · exact hmany

/-- The output of a run is the beginning of its output under wider limits. -/
theorem exists_output_run_under (hcalls : few.calls ≤ many.calls)
    (hevaluations : few.evaluations ≤ many.evaluations) (m : Machine) (p : Program) :
    ∃ out more, ((m.under few).run p).2.sink = m.sink.append out ∧
      ((m.under many).run p).2.sink = m.sink.append (out ++ more) := by
  obtain ⟨r, m', hfew, -, more, hmore⟩ := exists_runOn_program_under hcalls hevaluations m p
  obtain ⟨out, hout⟩ :=
    ((Eval.programSimulation_outlasts hcalls hevaluations).program p).grows (m.under few)
  rw [hfew] at hout
  have hout : m'.sink = m.sink.append out := hout
  refine ⟨out, more, ?_, ?_⟩
  · rw [run_snd, hfew]
    exact hout
  · rw [run_snd, ← Sink.append_append, ← hout]
    exact hmore

theorem run_fst_under {m m' : Machine} {p : Program} {r : Except Halt Unit}
    (hfew : (Eval.program p).runOn (m.under few) = (r, m'.under few)) :
    ((m.under few).run p).1 = match m'.sink.flush with
      | .error e => .error (.output e)
      | .ok () => (m.under few).resultOf r := by
  rw [run_fst, hfew]
  rfl

/-- Under limits that are at least as wide, a run that did not fail for being too deep ends in the
same way, and if that is not only because its flush failed, it leaves the same machine. Whatever
limit ended it, its output is the beginning of the output that it has under the wider limits. -/
theorem run_under_of_le (hcalls : few.calls ≤ many.calls)
    (hevaluations : few.evaluations ≤ many.evaluations) (m : Machine) (p : Program) :
    ((∀ kind limit, ((m.under few).run p).1 ≠ .error (.tooDeep kind limit)) →
      ((m.under many).run p).1 = ((m.under few).run p).1) ∧
    ((∀ kind limit, (m.under few).unflushed p ≠ .error (.tooDeep kind limit)) →
      ((m.under many).run p).2 = ((m.under few).run p).2.under many) ∧
    (((m.under few).run p).2.sink.flush = .ok () →
      ((m.under few).run p).1 = (m.under few).unflushed p) ∧
    ∃ out more, ((m.under few).run p).2.sink = m.sink.append out ∧
      ((m.under many).run p).2.sink = m.sink.append (out ++ more) := by
  obtain ⟨r, m', hfew, htogether, hmore⟩ := exists_runOn_program_under hcalls hevaluations m p
  have hfirst := run_fst_under hfew
  have hsecond : ((m.under few).run p).2 = (m'.under few).atRest := by rw [run_snd, hfew]
  have hunflushed : (m.under few).unflushed p = (m.under few).resultOf r := by
    rw [unflushed, hfew]
  refine ⟨fun hdeep => ?_, fun hdeep => ?_, fun hflush => ?_,
    exists_output_run_under hcalls hevaluations m p⟩
  · rw [run_fst, hmore.flush_eq]
    rw [hfirst] at hdeep ⊢
    cases hflush : m'.sink.flush with
    | error e => rfl
    | ok _ =>
      rw [hflush] at hdeep
      have hr := atLimit_eq_false_of_resultOf hdeep
      rw [htogether hr]
      exact resultOf_congr hr _ _
  · have hr := atLimit_eq_false_of_resultOf (hunflushed ▸ hdeep)
    rw [hsecond, run_snd, htogether hr]
    rfl
  · have hflush : m'.sink.flush = .ok () := by rwa [hsecond] at hflush
    rw [hfirst, hflush, hunflushed]

/-- Limits that allow one call are wide enough for what needs one call. -/
theorem run_under_of_le_printOne :
    ((narrow 0 false).under { calls := 1 }).unflushed printOne = .ok .completed ∧
    (((narrow 0 false).under {}).run printOne).1 = .ok .completed ∧
    (((narrow 0 false).under {}).run printOne).2 =
      (((narrow 0 false).under { calls := 1 }).run printOne).2.under {} := by
  have hunflushed : ((narrow 0 false).under { calls := 1 }).unflushed printOne = .ok .completed :=
    rfl
  have hresult : (((narrow 0 false).under { calls := 1 }).run printOne).1 = .ok .completed := rfl
  obtain ⟨hsame, hmachine, -, -⟩ := @run_under_of_le { calls := 1 } {}
    (by decide) (by decide) (narrow 0 false) printOne
  exact ⟨hunflushed, (hsame (by rw [hresult]; exact nofun)).trans hresult,
    hmachine (by rw [hunflushed]; exact nofun)⟩

/-- Where the flush fails, runs under different limits end in the same way, although the wider ones
let the program write what the narrower ones did not. -/
theorem flush_hides_lost_output :
    (narrow 0 true).Reachable ∧
    (∀ kind limit, (((narrow 0 true).under { calls := 0 }).run printOne).1 ≠
      .error (.tooDeep kind limit)) ∧
    (((narrow 0 true).under { calls := 1 }).run printOne).2.sink ≠
      (((narrow 0 true).under { calls := 0 }).run printOne).2.sink := by
  have hfault : (((narrow 0 true).under { calls := 0 }).run printOne).1 =
      .error (.output .flushFailed) := rfl
  refine ⟨reachable_narrow 0 true, by rw [hfault]; exact nofun, fun hsink => ?_⟩
  have hnone :
      (((narrow 0 true).under { calls := 0 }).run printOne).2.sink.written.size = 0 := rfl
  have hone : (((narrow 0 true).under { calls := 1 }).run printOne).2.sink.written.size = 1 := rfl
  rw [hsink, hnone] at hone
  cases hone

end Machine

end Scriptlet
