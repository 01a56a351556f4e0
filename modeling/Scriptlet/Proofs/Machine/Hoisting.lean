-- SUMMARY: It makes no difference where the functions of a program stand, or in which order.
import Scriptlet.Proofs.Machine.Bindings
import Scriptlet.Proofs.Machine.FunctionTables

/-!
# Hoisting

A run declares all functions of a program before it evaluates anything. If their names are
distinct and free, all of them are declared in any order, and each is found under its name
then. If not, a name is found taken in any order, though perhaps another one, and the run
is over before a variable is evaluated.
-/
namespace Scriptlet

open Scriptlet.Action Semantics

/-- The declarations of variables, in the order they were written. -/
def Program.variables (p : Program) : List Decl := p.decls.filter fun d => (global? d).isSome

theorem Eval.globals_filter (ds : List Decl) :
    Eval.globals (ds.filter fun d => (global? d).isSome) = Eval.globals ds := by
  induction ds with
  | nil => rfl
  | cons d ds ih =>
    cases hd : global? d with
    | none => rw [List.filter_cons_of_neg (by simp [hd]), ih, globals_cons_func hd]
    | some g => rw [List.filter_cons_of_pos (by simp [hd]), globals_cons hd, globals_cons hd, ih]

theorem Table.interchangeable_of_get? {t t' : Table Function} (h : ∀ x, t'.get? x = t.get? x) :
    t.Interchangeable t' := by
  intro x
  rw [h x]
  cases t.get? x with
  | none => exact .none
  | some f => exact .some (.refl f)

namespace Machine

variable {m : Machine} {f : Function} {fs gs : List Function} {p q : Program}

/-! ## Declaring functions -/

/-- The names of the functions are distinct, and free in the space of global names. -/
structure Hoistable (m : Machine) (fs : List Function) : Prop where
  distinct : (fs.map (·.ident)).Nodup
  free : ∀ f ∈ fs, m.isTaken f.ident = false

theorem Hoistable.perm (h : m.Hoistable fs) (hperm : fs.Perm gs) : m.Hoistable gs where
  distinct := (hperm.map _).nodup_iff.mp h.distinct
  free f hf := h.free f (hperm.mem_iff.mpr hf)

theorem isTaken_insert (m : Machine) (x : String) (f : Function) (y : String) :
    (m.withFunctions (m.functions.insert x f)).isTaken y = (decide (y = x) || m.isTaken y) := by
  simp only [isTaken, isCallable, withFunctions, Table.contains_insert, Bool.or_assoc,
    Bool.or_left_comm]

theorem hoistable_cons : m.Hoistable (f :: fs) ↔
    m.isTaken f.ident = false ∧ (m.withFunctions (m.functions.insert f.ident f)).Hoistable fs := by
  constructor
  · rintro ⟨hdistinct, hfree⟩
    obtain ⟨hnew, hdistinct⟩ := List.nodup_cons.mp hdistinct
    obtain ⟨hf, hfs⟩ := List.forall_mem_cons.mp hfree
    refine ⟨hf, hdistinct, fun g hg => ?_⟩
    have hne : g.ident ≠ f.ident := fun heq => hnew (List.mem_map.mpr ⟨g, hg, heq⟩)
    simp [isTaken_insert, hne, hfs g hg]
  · rintro ⟨hf, hdistinct, hfree⟩
    simp only [isTaken_insert, Bool.or_eq_false_iff, decide_eq_false_iff_not] at hfree
    refine ⟨List.nodup_cons.mpr ⟨fun hmem => ?_, hdistinct⟩,
      List.forall_mem_cons.mpr ⟨hf, fun g hg => (hfree g hg).2⟩⟩
    obtain ⟨g, hg, heq⟩ := List.mem_map.mp hmem
    exact (hfree g hg).1 heq

/-- Functions that can be declared are found under their names, and all others where they were. -/
theorem Hoistable.exists_runOn (h : m.Hoistable fs) :
    ∃ t, (Eval.functions fs).runOn m = (.ok (), m.withFunctions t) ∧
      ∀ x g, t.get? x = some g ↔ (g ∈ fs ∧ g.ident = x) ∨ m.functions.get? x = some g := by
  induction fs generalizing m with
  | nil => exact ⟨m.functions, rfl, by simp⟩
  | cons f fs ih =>
    obtain ⟨hf, hfs⟩ := hoistable_cons.mp h
    obtain ⟨t, hrun, hget⟩ := ih hfs
    refine ⟨t, (runOn_bind_ok (runOn_declareFunction_free hf)).trans hrun, fun x g => ?_⟩
    have hnone : m.functions.get? f.ident = none :=
      get?_eq_none_of_contains (isTaken_eq_false_iff.mp hf).2.1
    rw [hget, withFunctions, Table.get?_insert, List.mem_cons]
    by_cases hx : x = f.ident
    · subst hx
      rw [if_pos rfl, hnone]
      grind
    · rw [if_neg hx]
      grind

/-- Functions that cannot all be declared are declared up to one whose name is taken. -/
theorem exists_runOn_of_not_hoistable (h : ¬ m.Hoistable fs) :
    ∃ f ∈ fs, ∃ t, (Eval.functions fs).runOn m =
      (.error (.error (.alreadyDeclared f.ident)), m.withFunctions t) := by
  induction fs generalizing m with
  | nil => exact absurd ⟨List.nodup_nil, nofun⟩ h
  | cons f fs ih =>
    cases hf : m.isTaken f.ident with
    | true =>
      have hrun : (Eval.update (·.declareFunction f)).runOn m =
          (.error (.error (.alreadyDeclared f.ident)), m) := by
        rw [Eval.runOn_update, declareFunction, hf, if_pos rfl]
      exact ⟨f, List.mem_cons_self, m.functions, runOn_bind_error hrun⟩
    | false =>
      obtain ⟨g, hg, t, hrun⟩ := ih fun hfs => h (hoistable_cons.mpr ⟨hf, hfs⟩)
      exact ⟨g, List.mem_cons_of_mem f hg, t,
        (runOn_bind_ok (runOn_declareFunction_free hf)).trans hrun⟩

/-! ## Runs -/

/-- The run of the program is over when its functions are declared: it finds the name of one taken, and
says so unless its flush fails. It writes nothing, leaves the global variables alone, and is the same
whatever the variables of the program are. -/
structure Refuses (m : Machine) (p : Program) : Prop where
  result :
    (m.sink.flush = .ok () ∧ ∃ f ∈ p.functions, (m.run p).1 = .error (.alreadyDeclared f.ident)) ∨
      ∃ e, m.sink.flush = .error e ∧ (m.run p).1 = .error (.output e)
  sink : (m.run p).2.sink = m.sink
  globals : (m.run p).2.globals = m.globals
  unevaluated : ∀ q : Program, q.functions = p.functions → m.run q = m.run p

theorem refuses_of_not_hoistable (h : ¬ m.Hoistable p.functions) : m.Refuses p := by
  obtain ⟨f, hf, t, hfunctions⟩ := exists_runOn_of_not_hoistable h
  have hprogram (q : Program) (hq : q.functions = p.functions) : (Eval.program q).runOn m =
      (.error (.error (.alreadyDeclared f.ident)), m.withFunctions t) := by
    rw [Eval.program, hq]
    exact runOn_bind_error hfunctions
  have hsink : (m.withFunctions t).sink = m.sink := rfl
  refine ⟨?_, ?_, ?_, fun q hq => ?_⟩
  · cases hflush : m.sink.flush with
    | ok _ =>
      refine .inl ⟨rfl, f, hf, ?_⟩
      rw [run_fst, hprogram p rfl, hsink, hflush]
      rfl
    | error e =>
      refine .inr ⟨e, rfl, ?_⟩
      rw [run_fst, hprogram p rfl, hsink, hflush]
  · rw [run_snd, hprogram p rfl]
    rfl
  · rw [run_snd, hprogram p rfl]
    rfl
  · rw [run, run, hprogram p rfl, hprogram q hq]

/-- Two programs have the same declarations, and those of variables in the same order. If the functions can
be declared, the programs end in the same way, write the same and leave the same variables and functions,
on any machine. If not, the runs of both are over at once. -/
theorem run_hoisted (m : Machine) (hperm : p.decls.Perm q.decls)
    (hvariables : q.variables = p.variables) :
    (m.Hoistable p.functions →
      (m.run q).1 = (m.run p).1 ∧ (m.run q).2.sink = (m.run p).2.sink ∧
        (m.run q).2.globals = (m.run p).2.globals ∧
        ∀ x, (m.run q).2.functions.get? x = (m.run p).2.functions.get? x) ∧
    (¬ m.Hoistable p.functions → m.Refuses p ∧ m.Refuses q) := by
  have hfunctions : p.functions.Perm q.functions := hperm.filterMap _
  constructor
  · intro h
    obtain ⟨t, hp, ht⟩ := h.exists_runOn
    obtain ⟨t', hq, ht'⟩ := (h.perm hfunctions).exists_runOn
    have hget (x : String) : t'.get? x = t.get? x := by
      ext g
      rw [ht, ht', hfunctions.mem_iff]
    have hglobals : Eval.globals q.decls = Eval.globals p.decls := by
      rw [← Eval.globals_filter q.decls, ← Eval.globals_filter p.decls]
      exact congrArg Eval.globals hvariables
    obtain ⟨result, n, hrun, hrun'⟩ :=
      run_of_functions hp hq hglobals (Table.interchangeable_of_get? hget)
    rw [hrun, hrun']
    exact ⟨rfl, rfl, rfl, hget⟩
  · intro h
    exact ⟨refuses_of_not_hoistable h,
      refuses_of_not_hoistable fun hq => h (hq.perm hfunctions.symm)⟩

/-- A variable that begins with what a function returns, which calls another function. -/
def usedFirst : Program where
  decls := [
    .var "answer" (some (.call (.name "ask") [])),
    .func ⟨"ask", [], [], [.ret (.call (.name "one") [])]⟩,
    .func ⟨"one", [], [], [.ret (.int 1)]⟩]

/-- The declarations of `usedFirst`, the last of them first. -/
def usedLast : Program where
  decls := usedFirst.decls.reverse

/-- On a machine where the functions can be declared, and then on one where they were. -/
theorem run_hoisted_usedFirst :
    let m := Machine.standard {} {}
    let n := (m.run usedFirst).2
    usedFirst.decls.Perm usedLast.decls ∧ usedLast.variables = usedFirst.variables ∧
      m.Hoistable usedFirst.functions ∧ (m.run usedLast).1 = .ok .completed ∧
      (m.run usedLast).2.globals = (m.run usedFirst).2.globals ∧
      (m.run usedFirst).2.global? "answer" = some (.int 1) ∧
      ¬ n.Hoistable usedFirst.functions ∧ n.Refuses usedFirst ∧ n.Refuses usedLast := by
  intro m n
  have hperm : usedFirst.decls.Perm usedLast.decls := (List.reverse_perm _).symm
  have hvariables : usedLast.variables = usedFirst.variables := rfl
  have hm : m.Hoistable usedFirst.functions := ⟨by decide, by decide +kernel⟩
  have hn : ¬ n.Hoistable usedFirst.functions := fun h =>
    absurd (h.free _ List.mem_cons_self) (by decide +kernel)
  obtain ⟨hresult, -, hglobals, -⟩ := (run_hoisted m hperm hvariables).1 hm
  have hcompleted : (m.run usedFirst).1 = .ok .completed := by decide +kernel
  exact ⟨hperm, hvariables, hm, hresult.trans hcompleted, hglobals, by decide +kernel, hn,
    (run_hoisted n hperm hvariables).2 hn⟩

/-- Declares a function twice. -/
def twice : Program where
  decls := [.func ⟨"f", [], [], []⟩, .func ⟨"f", [], [], []⟩]

/-- Where the flush fails, its fault hides that a function was declared twice. -/
theorem flush_hides_duplicate :
    let m := Machine.standard {} { flushFails := true }
    m.Reachable ∧ twice.decls.Perm twice.decls ∧ ¬ m.Hoistable twice.functions ∧
      ∀ x, (m.run twice).1 ≠ .error (.alreadyDeclared x) := by
  intro m
  have hfault : (m.run twice).1 = .error (.output .flushFailed) := rfl
  refine ⟨.fresh _ _ _, .refl _, fun h => absurd h.distinct (by decide), fun x => ?_⟩
  rw [hfault]
  exact nofun

end Machine

end Scriptlet
