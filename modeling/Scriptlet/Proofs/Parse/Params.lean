-- SUMMARY: Collecting the parameters of a function one by one, and when each of them may stand where it does.
import Scriptlet.Parse.Program
import Scriptlet.Proofs.Grammar

/-!
# Parameters

A parser meets parameters one by one and keeps those it has met in two lists. The
grammar has them in one list and asks of it that names are distinct and that
required parameters come first. Here the two views are shown to agree.
-/
namespace Scriptlet

open Grammar

namespace Parse.Params

/-- The parameters that were met, with one more. -/
def add (ps : Params) (p : Param) : Params where
  required := ps.required ++ p.required?.toList
  optional := ps.optional ++ p.optional?.toList

/-- May the parameter stand behind those that were met? -/
structure Admits (ps : Params) (p : Param) : Prop where
  fresh : ps.contains p.ident = false
  ordered : ps.optional ≠ [] → p.default.isSome

/-- May these parameters stand behind those that were met? -/
def AdmitsAll : Params → List Param → Prop
  | _, [] => True
  | ps, q :: qs => ps.Admits q ∧ (ps.add q).AdmitsAll qs

theorem contains_add (ps : Params) (p : Param) (x : String) :
    (ps.add p).contains x = (ps.contains x || p.ident == x) := by
  rcases p with ⟨y, _ | s⟩
  · simp only [add, contains, Param.required?, Param.optional?, Option.isSome_none,
      Bool.false_eq_true, if_false, Option.toList_some, Option.map_none, Option.toList_none,
      List.append_nil, List.contains_append, List.contains_cons, List.contains_nil,
      Bool.or_false, Bool.or_right_comm]
    rw [Bool.beq_comm]
  · simp [add, contains, Param.required?, Param.optional?, Bool.or_assoc]

theorem optional_add_ne_nil (ps : Params) (p : Param) :
    (ps.add p).optional ≠ [] ↔ ps.optional ≠ [] ∨ p.default.isSome := by
  rcases p with ⟨y, _ | s⟩ <;> simp [add, Param.optional?]

theorem foldl_add (ps : Params) (qs : List Param) :
    qs.foldl add ps =
      ⟨ps.required ++ qs.filterMap Param.required?, ps.optional ++ qs.filterMap Param.optional?⟩ := by
  induction qs generalizing ps with
  | nil => simp
  | cons q qs ih =>
    rw [List.foldl_cons, ih, add]
    cases hr : q.required? <;> cases ho : q.optional? <;> simp [hr, ho]

theorem paramsOrdered_cons (q : Param) (qs : List Param) :
    ParamsOrdered (q :: qs) ↔
      (∀ r ∈ qs, q.ident ≠ r.ident) ∧ (∀ r ∈ qs, q.default.isSome → r.default.isSome) ∧
        ParamsOrdered qs := by
  constructor
  · rintro ⟨hd, hr⟩
    rw [List.map_cons, List.nodup_cons] at hd
    rw [List.pairwise_cons] at hr
    exact ⟨fun r hmem heq => hd.1 (List.mem_map.mpr ⟨r, hmem, heq.symm⟩), hr.1, hd.2, hr.2⟩
  · rintro ⟨hne, hsome, hd, hr⟩
    refine ⟨?_, List.pairwise_cons.mpr ⟨hsome, hr⟩⟩
    rw [List.map_cons, List.nodup_cons]
    refine ⟨fun hmem => ?_, hd⟩
    obtain ⟨r, hmem, heq⟩ := List.mem_map.mp hmem
    exact hne r hmem heq.symm

theorem admitsAll_iff (ps : Params) (qs : List Param) :
    ps.AdmitsAll qs ↔
      (∀ q ∈ qs, ps.contains q.ident = false) ∧
        (ps.optional ≠ [] → ∀ q ∈ qs, q.default.isSome) ∧ ParamsOrdered qs := by
  induction qs generalizing ps with
  | nil =>
    simp only [AdmitsAll, List.not_mem_nil, false_imp_iff, implies_true, true_and, true_iff]
    exact ⟨List.nodup_nil, .nil⟩
  | cons q qs ih =>
    rw [AdmitsAll, ih, paramsOrdered_cons]
    simp only [contains_add, optional_add_ne_nil, Bool.or_eq_false_iff, beq_eq_false_iff_ne,
      List.forall_mem_cons]
    constructor
    · rintro ⟨⟨hfresh, hord⟩, hnew, hsome, hqs⟩
      exact ⟨⟨hfresh, fun r hr => (hnew r hr).1⟩,
        fun ho => ⟨hord ho, hsome (.inl ho)⟩, fun r hr => (hnew r hr).2,
        fun r hr hq => hsome (.inr hq) r hr, hqs⟩
    · rintro ⟨⟨hfresh, hold⟩, hord, hne, hsome, hqs⟩
      exact ⟨⟨hfresh, fun ho => (hord ho).1⟩, fun r hr => ⟨hold r hr, hne r hr⟩,
        fun ho r hr => ho.elim (fun ho => (hord ho).2 r hr) (hsome r hr), hqs⟩

/-- From the first parameter on, all may stand where they do if their list is in order. -/
theorem admitsAll_empty (qs : List Param) : ({} : Params).AdmitsAll qs ↔ ParamsOrdered qs := by
  rw [admitsAll_iff]
  simp [contains]

end Parse.Params

end Scriptlet
