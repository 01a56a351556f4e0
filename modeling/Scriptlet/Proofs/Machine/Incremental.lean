-- SUMMARY: Running a program in two parts, one after the other, is running it as a whole.
import Scriptlet.Proofs.Machine.Bindings

/-!
# Programs in two parts

A run leaves nothing behind but variables, functions and output. So declarations that
come later may as well be run later, as long as there are no functions among them,
which a run would declare before anything else.
-/
namespace Scriptlet

open Scriptlet.Action

namespace Program

/-- The declarations of one program and then those of another. -/
instance : Append Program where
  append p q := ⟨p.decls ++ q.decls⟩

@[simp] theorem decls_append (p q : Program) : (p ++ q).decls = p.decls ++ q.decls := rfl

@[simp] theorem functions_append (p q : Program) :
    (p ++ q).functions = p.functions ++ q.functions :=
  List.filterMap_append

end Program

namespace Eval

/-- A program without functions is its global variables. -/
theorem program_eq_globals {q : Program} (hq : q.functions = []) : program q = globals q.decls := by
  rw [program, hq]
  rfl

theorem program_append (p : Program) {q : Program} (hq : q.functions = []) :
    program (p ++ q) = (program p >>= fun _ => program q) := by
  rw [program_eq_globals hq, program, program, Program.functions_append, hq, List.append_nil,
    Program.decls_append, Machine.globals_append, bind_assoc]

end Eval

/-! ## Programs in many parts -/

namespace Program

/-- Does the program declare anything but functions? -/
def HasVariables (p : Program) : Prop := ∃ d ∈ p.decls, ∀ f, d ≠ .func f

/-- The declarations of all programs, in their order. -/
def join (ps : List Program) : Program := ⟨ps.flatMap decls⟩

theorem join_cons (p : Program) (ps : List Program) : join (p :: ps) = p ++ join ps :=
  congrArg mk List.flatMap_cons

theorem join_append (ps qs : List Program) : join (ps ++ qs) = join ps ++ join qs :=
  congrArg mk List.flatMap_append

theorem functions_join_eq_nil {ps : List Program} (h : ∀ p ∈ ps, p.functions = []) :
    (join ps).functions = [] := by
  induction ps with
  | nil => rfl
  | cons p ps ih =>
    obtain ⟨hp, hps⟩ := List.forall_mem_cons.mp h
    rw [join_cons, functions_append, hp, ih hps]
    rfl

theorem hasVariables_join {ps : List Program} :
    (join ps).HasVariables ↔ ∃ p ∈ ps, p.HasVariables := by
  constructor
  · rintro ⟨d, hd, hvariable⟩
    obtain ⟨p, hp, hdp⟩ := List.mem_flatMap.mp hd
    exact ⟨p, hp, d, hdp, hvariable⟩
  · rintro ⟨p, hp, d, hd, hvariable⟩
    exact ⟨d, List.mem_flatMap.mpr ⟨p, hp, hd⟩, hvariable⟩

/-- No program with functions stands behind one with variables. -/
def FunctionsFirst (ps : List Program) : Prop :=
  ps.Pairwise fun p q => p.HasVariables → q.functions = []

theorem FunctionsFirst.append {ps qs : List Program} (h : FunctionsFirst (ps ++ qs)) :
    (join ps).HasVariables → (join qs).functions = [] := by
  intro hvariables
  obtain ⟨p, hp, hvariables⟩ := hasVariables_join.mp hvariables
  exact functions_join_eq_nil fun q hq => (List.pairwise_append.mp h).2.2 p hp q hq hvariables

end Program

namespace Eval

open Program (join FunctionsFirst)

theorem globals_eq_pure {ds : List Decl} (h : ∀ d ∈ ds, ∃ f, d = .func f) : globals ds = pure () := by
  induction ds with
  | nil => rfl
  | cons d ds ih =>
    obtain ⟨⟨f, rfl⟩, hds⟩ := List.forall_mem_cons.mp h
    rw [globals, ih hds]

/-- A program without variables is its functions. -/
theorem globals_eq_pure_of_not_hasVariables {p : Program} (h : ¬ p.HasVariables) :
    globals p.decls = pure () := by
  refine globals_eq_pure fun d hd => ?_
  by_contra hvariable
  exact h ⟨d, hd, fun f hf => hvariable ⟨f, hf⟩⟩

/-- Programs one after another are one program, if those with functions stand first. -/
theorem program_append_of_imp {p q : Program} (h : p.HasVariables → q.functions = []) :
    program (p ++ q) = (program p >>= fun _ => program q) := by
  by_cases hvariables : p.HasVariables
  · exact program_append p (h hvariables)
  · have hp := globals_eq_pure_of_not_hasVariables hvariables
    simp only [program, Program.functions_append, Program.decls_append, Machine.functions_append,
      Machine.globals_append, hp, bind_assoc, pure_bind]

/-- Carries out programs one after another. -/
def programs : List Program → Eval Unit
  | [] => return ()
  | p :: ps => do
    program p
    programs ps

theorem program_join {ps : List Program} (h : FunctionsFirst ps) : program (join ps) = programs ps := by
  induction ps with
  | nil => rfl
  | cons p ps ih =>
    have hp : p.HasVariables → (join ps).functions = [] := fun hvariables =>
      Program.functions_join_eq_nil fun q hq => List.rel_of_pairwise_cons h hq hvariables
    rw [Program.join_cons, program_append_of_imp hp, ih h.of_cons]
    rfl

end Eval

namespace Machine

variable {m m' : Machine} {p q : Program}

/-- A run is determined by what its declarations did. -/
theorem run_congr (h : (Eval.program p).runOn m = (Eval.program q).runOn m') :
    m.run p = m'.run q := by
  rw [run, run, h]

/-- A run that was not completed failed or exited, if its flush did not fail. -/
theorem run_fst_ne_completed {h : Halt} (hrun : (Eval.program p).runOn m = (.error h, m')) :
    (m.run p).1 ≠ .ok .completed := by
  rw [run_fst, hrun]
  cases m'.sink.flush with
  | error e => exact nofun
  | ok _ => cases h <;> exact nofun

/-- The machine between two runs is the one that evaluates the second part of a program. -/
theorem run_eq_completed (hm : m.frames = []) (hdepth : m.depth = 0)
    (hflush : m.sink.flush = .ok ()) (hrun : (Eval.program p).runOn m = (.ok (), m')) :
    m.run p = (.ok .completed, m') := by
  obtain ⟨r, s, hfollows, -⟩ := program_follows hm p
  obtain ⟨rfl, rfl⟩ := Prod.mk.inj (hrun.symm.trans hfollows)
  have hgrows := Eval.grows_program p m
  rw [hrun] at hgrows
  refine Prod.ext ?_ ?_
  · rw [run_fst, hrun, hgrows.flush_eq, hflush]
    rfl
  · rw [run_snd, hrun, atRest, ← hm, ← hdepth]
    rfl

/-- Where the second part declares no function, running a program in two parts is running it as a
whole: the result, the output, the variables and the functions are the same. If the first part does
not complete, the whole does what the first part alone does. -/
theorem run_append (hm : m.Reachable) (hflush : m.sink.flush = .ok ()) (p : Program)
    (hq : q.functions = []) :
    ((m.run p).1 = .ok .completed → m.run (p ++ q) = (m.run p).2.run q) ∧
    ((m.run p).1 ≠ .ok .completed → m.run (p ++ q) = m.run p) := by
  rcases hrun : (Eval.program p).runOn m with ⟨h | _, m'⟩
  · have hended := run_fst_ne_completed hrun
    refine ⟨fun hcompleted => absurd hcompleted hended, fun _ => run_congr ?_⟩
    rw [Eval.program_append p hq, runOn_bind_error hrun, hrun]
  · have hcompleted := run_eq_completed hm.frames_eq_nil hm.depth_eq_zero hflush hrun
    rw [hcompleted]
    refine ⟨fun _ => run_congr ?_, fun hended => absurd rfl hended⟩
    rw [Eval.program_append p hq, runOn_bind_ok hrun]

/-- Prints the constant of `bookkeeping`. -/
def receipt : Program where
  decls := [.var "shown" (some (.call (.name "print") [.name "rate"]))]

/-- In two parts, the first of which completes in one case and fails in the middle of an initializer in
the other. -/
theorem run_append_receipt :
    let m := Machine.standard {} {}
    let m' := (m.run bookkeeping).2
    m.Reachable ∧ m'.Reachable ∧ m.sink.flush = .ok () ∧ m'.sink.flush = .ok () ∧
      receipt.functions = [] ∧
      (m.run bookkeeping).1 = .ok .completed ∧
      m.run (bookkeeping ++ receipt) = m'.run receipt ∧
      (m'.run receipt).2.sink.written.size = 1 ∧
      (m'.run overreach).1 = .error (.constantAssigned "rate") ∧
      m'.run (overreach ++ receipt) = m'.run overreach := by
  intro m m'
  have hm : m.Reachable := .fresh _ _ _
  have hm' : m'.Reachable := .run bookkeeping hm
  have hcompleted : (m.run bookkeeping).1 = .ok .completed := rfl
  have hfailed : (m'.run overreach).1 = .error (.constantAssigned "rate") := rfl
  have hended : (m'.run overreach).1 ≠ .ok .completed := by rw [hfailed]; exact nofun
  exact ⟨hm, hm', rfl, rfl, rfl, hcompleted, (run_append hm rfl bookkeeping rfl).1 hcompleted,
    by decide +kernel, hfailed, (run_append hm' rfl overreach rfl).2 hended⟩

end Machine

end Scriptlet
