-- SUMMARY: The machines that a session meets between its runs.
import Mathlib
import Scriptlet.Script

/-!
# Sessions

A session runs programs one after another on one machine. Between runs the host
may take what was written and put another sink in place.
-/
namespace Scriptlet.Machine

/-- The machines between the runs of a session, whatever was run and however it ended. -/
inductive Reachable : Machine → Prop
  | fresh (builtins : Builtins) (limits : Limits) (sink : Sink) :
      Reachable { builtins, limits, sink }
  | run (p : Program) : Reachable m → Reachable (m.run p).2
  | redirect (sink : Sink) : Reachable m → Reachable { m with sink }

/-- The machines between the texts of a session, each of which is read and run under the same
limits. -/
inductive ReachableByTexts (limits : Limits) : Machine → Prop
  | fresh (builtins : Builtins) (sink : Sink) :
      ReachableByTexts limits { builtins, limits, sink }
  | runText (text : String) :
      ReachableByTexts limits m → ReachableByTexts limits (m.runText text).2
  | redirect (sink : Sink) : ReachableByTexts limits m → ReachableByTexts limits { m with sink }

theorem run_snd_frames (m : Machine) (p : Program) : (m.run p).2.frames = [] := by
  simp only [run]
  split <;> rfl

theorem run_snd_depth (m : Machine) (p : Program) : (m.run p).2.depth = 0 := by
  simp only [run]
  split <;> rfl

namespace Reachable

variable {m : Machine}

/-- No call is active between runs. -/
theorem frames_eq_nil (h : m.Reachable) : m.frames = [] := by
  induction h with
  | fresh => rfl
  | run p _ _ => exact run_snd_frames _ p
  | redirect _ _ ih => exact ih

/-- Nothing is being evaluated between runs. -/
theorem depth_eq_zero (h : m.Reachable) : m.depth = 0 := by
  induction h with
  | fresh => rfl
  | run p _ _ => exact run_snd_depth _ p
  | redirect _ _ ih => exact ih

end Reachable

end Scriptlet.Machine
