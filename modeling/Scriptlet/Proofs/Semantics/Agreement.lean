-- SUMMARY: A run that no limit cuts short does exactly what the rules derive.
import Scriptlet.Proofs.Machine.Session
import Scriptlet.Proofs.Semantics.Complete

/-!
# Agreement of the machine with the rules

The two directions put together for the runs of a session. A run flushes its
sink at the end, and the fault of that flush takes the place of what the run
ended with, also of a nesting that was too deep. So what must not be too deep is
what the run ended with before the flush.
-/
namespace Scriptlet

open Semantics

/-- The machine under other limits. -/
def Machine.under (m : Machine) (limits : Limits) : Machine := { m with limits }

/-- Under limits that do not cut it short, a run has the one meaning that the rules give the
program: its result, its output, and the variables and functions that it leaves. And what the rules
give a program, a run does under all limits from some on. -/
theorem Machine.runs_iff_eq_run {m : Machine} (hm : m.Reachable) (limits : Limits) (p : Program) :
    (((m.under limits).run p).2.sink.flush = .ok () →
      ((m.under limits).run p).1 = (m.under limits).unflushed p) ∧
    ((∀ kind limit, (m.under limits).unflushed p ≠ .error (.tooDeep kind limit)) →
      ∀ out t, Runs m.builtins m.store p out t ↔
        out = ((m.under limits).run p).1 ∧ t = ((m.under limits).run p).2.store) ∧
    (∀ out t, Runs m.builtins m.store p out t → ∃ n, ∀ limits : Limits,
      n ≤ limits.calls → n ≤ limits.evaluations →
        ((m.under limits).run p).1 = out ∧ ((m.under limits).run p).2.store = t) := by
  have hframes := hm.frames_eq_nil
  refine ⟨run_fst_of_flush (m := m.under limits) hframes, fun hdeep out t => ⟨?_, ?_⟩,
    fun out t hruns => ?_⟩
  · intro hruns
    exact hruns.unique (runs_run (m := m.under limits) hframes hdeep)
  · rintro ⟨rfl, rfl⟩
    exact runs_run (m := m.under limits) hframes hdeep
  · obtain ⟨n, hn⟩ := hruns.attained
    refine ⟨n, fun limits hcalls hevaluations => hn (m.under limits) rfl rfl hframes ⟨?_, ?_⟩⟩
    · change m.depth + n ≤ limits.evaluations
      rw [hm.depth_eq_zero]
      omega
    · change m.frames.length + n ≤ limits.calls
      rw [hframes]
      simpa using hcalls

namespace Semantics

/-- Prints what its one function returns. -/
def printOne : Program where
  decls := [.func ⟨"f", [], [], [.ret (.int 1)]⟩,
    .var "r" (some (.call (.name "print") [.call (.name "f") []]))]

/-- A machine that allows so many calls and whose sink may not be flushed. -/
def narrow (calls : Nat) (flushFails : Bool) : Machine where
  builtins := Builtins.standard
  limits := { calls }
  sink := { flushFails }

theorem reachable_narrow (calls : Nat) (flushFails : Bool) : (narrow calls flushFails).Reachable :=
  .fresh _ _ _

/-- From a machine that allows no call, under limits that allow one. -/
theorem printOne_runs :
    (narrow 0 false).Reachable ∧
    (∀ kind limit,
      ((narrow 0 false).under { calls := 1 }).unflushed printOne ≠ .error (.tooDeep kind limit)) ∧
    Runs Builtins.standard (narrow 0 false).store printOne (.ok .completed)
      (((narrow 0 false).under { calls := 1 }).run printOne).2.store := by
  have hm := reachable_narrow 0 false
  have hdeep : ((narrow 0 false).under { calls := 1 }).unflushed printOne = .ok .completed := rfl
  have hnot : ∀ kind limit, ((narrow 0 false).under { calls := 1 }).unflushed printOne ≠
      .error (.tooDeep kind limit) := by
    rw [hdeep]
    exact nofun
  refine ⟨hm, hnot, ?_⟩
  exact ((Machine.runs_iff_eq_run hm { calls := 1 } printOne).2.1 hnot _ _).2 ⟨rfl, rfl⟩

/-- A flush that fails hides that the limit on calls cut a run short: the run ends with the fault of
the flush, and without the output that the program has. -/
theorem flush_hides_depth :
    (narrow 0 true).Reachable ∧
    (∀ kind limit, ((narrow 0 true).run printOne).1 ≠ .error (.tooDeep kind limit)) ∧
    ¬ Runs (narrow 0 true).builtins (narrow 0 true).store printOne
      ((narrow 0 true).run printOne).1 ((narrow 0 true).run printOne).2.store := by
  have hfault : ((narrow 0 true).run printOne).1 = .error (.output .flushFailed) := rfl
  refine ⟨reachable_narrow 0 true, by rw [hfault]; exact nofun, fun hruns => ?_⟩
  -- With room for the call, the program writes something before the flush fails.
  have hdeep : (narrow 1 true).unflushed printOne = .ok .completed := rfl
  have hroom : Runs Builtins.standard (narrow 1 true).store printOne
      ((narrow 1 true).run printOne).1 ((narrow 1 true).run printOne).2.store :=
    Machine.runs_run rfl (by rw [hdeep]; exact nofun)
  have hsame := congrArg (·.sink.written.size) (hruns.unique hroom).2
  have hnone : ((narrow 0 true).run printOne).2.store.sink.written.size = 0 := rfl
  have hone : ((narrow 1 true).run printOne).2.store.sink.written.size = 1 := rfl
  simp only [hnone, hone] at hsame
  cases hsame

end Semantics

end Scriptlet
