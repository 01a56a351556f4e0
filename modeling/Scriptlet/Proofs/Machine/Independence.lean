-- SUMMARY: Programs that share no names but those of builtins do the same in both orders.
import Scriptlet.Proofs.Machine.Bindings
import Scriptlet.Proofs.Machine.Frame

/-!
# Independent programs

A program only depends on and changes what its own names stand for. Programs that have no
names in common may therefore be run in either order. Names of builtins may be shared, for
they cannot be declared, whatever a program tries.
-/
namespace Scriptlet

/-- The programs have no identifiers in common but names of builtins. -/
def Program.Independent (builtins : Builtins) (p q : Program) : Prop :=
  ∀ x ∈ p.idents, x ∈ q.idents → builtins.contains x = true

theorem Program.Independent.symm {builtins : Builtins} {p q : Program}
    (h : p.Independent builtins q) : q.Independent builtins p := fun x hq hp => h x hp hq

namespace Machine

variable {m : Machine} {p q : Program}

/-- Nothing is declared under the name of a builtin. -/
theorem Orderly.get?_eq_none (hm : m.Orderly) {x : String} (hx : m.builtins.contains x = true) :
    m.globals.get? x = none ∧ m.functions.get? x = none := by
  constructor
  · refine get?_eq_none_of_contains (Bool.eq_false_iff.mpr fun h => ?_)
    exact absurd hx (Bool.eq_false_iff.mp (hm.globals_builtins x h))
  · refine get?_eq_none_of_contains (Bool.eq_false_iff.mpr fun h => ?_)
    exact absurd hx (Bool.eq_false_iff.mp (hm.functions_builtins x h))

/-! ## One program after the other -/

/-- A machine on which nothing was run yet. -/
def fresh (builtins : Builtins) (limits : Limits) (sink : Sink) : Machine := { builtins, limits, sink }

variable {builtins : Builtins} (limits : Limits) {sink sink' : Sink}

theorem extends_run (m : Machine) (p : Program) : m.sink.Extends (m.run p).2.sink := by
  rw [run_snd]
  exact Eval.grows_program p m

/-- Whatever two programs declare, they do not declare it under the name of a builtin. -/
theorem unbound_run_run {x : String} (hx : builtins.contains x = true) (sink : Sink) (p q : Program) :
    let ended := ((fresh builtins limits sink).run p).2.run q
    ended.2.globals.get? x = none ∧ ended.2.functions.get? x = none := by
  obtain ⟨horderly, hretains⟩ := (Reachable.fresh builtins limits sink).orderly.run p
  obtain ⟨horderly', hretains'⟩ := horderly.run q
  refine horderly'.get?_eq_none ?_
  rw [hretains'.builtins, hretains.builtins]
  exact hx

/-- A run leaves alone what names stand for that the program does not have. -/
theorem frame_run_fresh (hs : sink.capacity = none) (p : Program) :
    (fresh builtins limits sink).Frame (· ∈ p.idents) ((fresh builtins limits sink).run p).2 :=
  (AgreeOn.run hs hs rfl (AgreeOn.self (m := fresh builtins limits sink) nofun) fun _ => id).2.2

/-- Where nothing is declared, a program finds what it finds after an independent one. -/
theorem agreeOn_run_fresh (hs' : sink'.capacity = none) (h : p.Independent builtins q) :
    AgreeOn (· ∈ p.idents) sink ((fresh builtins limits sink').run q).2.sink
      (fresh builtins limits sink) ((fresh builtins limits sink').run q).2 := by
  have hreachable : (fresh builtins limits sink').Reachable := .fresh builtins limits sink'
  have horderly := (hreachable.run q).orderly
  have hframe : (fresh builtins limits sink').Frame (· ∈ q.idents) _ := frame_run_fresh limits hs' q
  generalize hn : ((fresh builtins limits sink').run q).2 = n at *
  have hshared (x : String) (hp : x ∈ p.idents) (hq : x ∈ q.idents) :
      n.globals.get? x = none ∧ n.functions.get? x = none :=
    horderly.get?_eq_none (by rw [hframe.builtins]; exact h x hp hq)
  refine ⟨hframe.builtins, hframe.limits, horderly.frames, horderly.depth,
    fun x hp => ?_, fun x hp => ?_, nofun, .empty, (Sink.append_empty _).symm,
    (Sink.append_empty _).symm⟩
  · by_cases hq : x ∈ q.idents
    · exact (hshared x hp hq).1
    · exact hframe.globals x hq
  · by_cases hq : x ∈ q.idents
    · exact (hshared x hp hq).2
    · exact hframe.functions x hq

/-- Where nothing is declared, a program does the same as after an independent one, and then leaves alone
what names stand for that it does not have. -/
theorem run_after_independent (hs : sink.capacity = none) (hs' : sink'.capacity = none)
    (hflush : sink'.flush = sink.flush) (h : p.Independent builtins q) :
    let m := fresh builtins limits sink
    let n := ((fresh builtins limits sink').run q).2
    (n.run p).1 = (m.run p).1 ∧ AgreeOn (· ∈ p.idents) sink n.sink (m.run p).2 (n.run p).2 ∧
      n.Frame (· ∈ p.idents) (n.run p).2 := by
  intro m n
  have hextends : sink'.Extends n.sink := extends_run _ q
  have hn : n.sink.capacity = none := (Sink.extends_capacity hextends).trans hs'
  have hended : n.sink.flush = sink.flush := hextends.flush_eq.trans hflush
  have hagree : AgreeOn (· ∈ p.idents) sink n.sink m n := agreeOn_run_fresh limits hs' h
  obtain ⟨hresult, hafter, -⟩ := hagree.run hs hn hended fun _ => id
  obtain ⟨-, -, hframe⟩ := hagree.symm.run hn hs hended.symm fun _ => id
  exact ⟨hresult, hafter, hframe⟩

/-! ## Both orders -/

/-- Where nothing is declared, running independent programs one after the other gives the same results and
the same output in both orders, and leaves the same globals and functions, however the runs end. The sinks
have no bound and are flushed alike; what they hold before makes no difference. -/
theorem run_comm (builtins : Builtins) (limits : Limits) {sink sink' : Sink}
    (hs : sink.capacity = none) (hs' : sink'.capacity = none) (hflush : sink'.flush = sink.flush)
    (h : p.Independent builtins q) :
    let m := fresh builtins limits sink
    let m' := fresh builtins limits sink'
    let pq := (m.run p).2.run q
    let qp := (m'.run q).2.run p
    qp.1 = (m.run p).1 ∧ pq.1 = (m'.run q).1 ∧
      (∃ bytes, (m.run p).2.sink = sink.append bytes ∧ qp.2.sink = (m'.run q).2.sink.append bytes) ∧
      (∃ bytes, (m'.run q).2.sink = sink'.append bytes ∧ pq.2.sink = (m.run p).2.sink.append bytes) ∧
      ∀ x, pq.2.globals.get? x = qp.2.globals.get? x ∧
        pq.2.functions.get? x = qp.2.functions.get? x := by
  intro m m' pq qp
  obtain ⟨hp, hagreep, hframep⟩ := run_after_independent limits hs hs' hflush h
  obtain ⟨hq, hagreeq, hframeq⟩ := run_after_independent limits hs' hs hflush.symm h.symm
  have hfirstp : m.Frame (· ∈ p.idents) (m.run p).2 := frame_run_fresh limits hs p
  have hfirstq : m'.Frame (· ∈ q.idents) (m'.run q).2 := frame_run_fresh limits hs' q
  refine ⟨hp, hq, hagreep.written, hagreeq.written, fun x => ?_⟩
  by_cases hxp : x ∈ p.idents
  · by_cases hxq : x ∈ q.idents
    · -- A name of a builtin: nothing is declared under it, in either order.
      have hx : builtins.contains x = true := h x hxp hxq
      obtain ⟨hglobal, hfunction⟩ := unbound_run_run limits hx sink p q
      obtain ⟨hglobal', hfunction'⟩ := unbound_run_run limits hx sink' q p
      exact ⟨hglobal.trans hglobal'.symm, hfunction.trans hfunction'.symm⟩
    · exact ⟨(hframeq.globals x hxq).trans (hagreep.globals x hxp).symm,
        (hframeq.functions x hxq).trans (hagreep.functions x hxp).symm⟩
  · by_cases hxq : x ∈ q.idents
    · exact ⟨(hagreeq.globals x hxq).trans (hframep.globals x hxp).symm,
        (hagreeq.functions x hxq).trans (hframep.functions x hxp).symm⟩
    · have hpq := (hframeq.globals x hxq).trans (hfirstp.globals x hxp)
      have hqp := (hframep.globals x hxp).trans (hfirstq.globals x hxq)
      have hpq' := (hframeq.functions x hxq).trans (hfirstp.functions x hxp)
      have hqp' := (hframep.functions x hxp).trans (hfirstq.functions x hxq)
      exact ⟨hpq.trans hqp.symm, hpq'.trans hqp'.symm⟩

/-- Counts in a function that changes a global variable, and shows the count. -/
def counting : Program where
  decls := [
    .func ⟨"count", [], [],
      [.assign "total" (.int 2), .expr (.call (.name "print") [.name "total"])]⟩,
    .var "total" (some (.int 1)), .var "counted" (some (.call (.name "count") []))]

/-- Shows a number and then fails. -/
def dividing : Program where
  decls := [.const "rate" (.int 7), .var "shown" (some (.call (.name "print") [.name "rate"])),
    .var "part" (some (.binary .div (.name "rate") (.int 0)))]

/-- Two runs on a machine with the default builtins. -/
def inOrder (p q : Program) : Except RuntimeError Outcome × Machine :=
  ((fresh Builtins.standard {} {}).run p).2.run q

/-- A program that completes and one that fails, which both print. -/
theorem run_comm_counting_dividing :
    counting.Independent Builtins.standard dividing ∧
      (inOrder dividing counting).1 = .ok .completed ∧
      (inOrder counting dividing).1 = .error .divisionByZero ∧
      (inOrder counting dividing).2.sink.written = "27".toByteArray ∧
      (inOrder dividing counting).2.sink.written = "72".toByteArray ∧
      (inOrder counting dividing).2.global? "total" = some (.int 2) ∧
      (inOrder dividing counting).2.global? "total" = some (.int 2) := by
  have hunbounded : (Sink.mk .empty none false).capacity = none := rfl
  have hindependent : counting.Independent Builtins.standard dividing := by
    unfold Program.Independent
    decide
  obtain ⟨hcounting, hdividing, -, -, hsame⟩ :=
    run_comm Builtins.standard {} hunbounded hunbounded rfl hindependent
  have hcompleted : ((fresh Builtins.standard {} {}).run counting).1 = .ok .completed := by cbv
  have hfailed : ((fresh Builtins.standard {} {}).run dividing).1 = .error .divisionByZero := by
    decide +kernel
  have htotal : (inOrder counting dividing).2.global? "total" = some (.int 2) := by decide +kernel
  have hsameTotal : (inOrder dividing counting).2.global? "total" =
      (inOrder counting dividing).2.global? "total" := by
    rw [global?, Scope.value?, inOrder, ← (hsame "total").1]
    rw [global?, Scope.value?, inOrder]
  refine ⟨hindependent, ?_, ?_, ?_, ?_, htotal, ?_⟩
  · rw [inOrder, hcounting, hcompleted]
  · rw [inOrder, hdividing, hfailed]
  · decide +kernel
  · decide +kernel
  · rw [hsameTotal, htotal]

end Machine

end Scriptlet
