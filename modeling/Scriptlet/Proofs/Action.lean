-- SUMMARY: Running sequences of actions: what they return, and what a sequence that returns consists of.
import Mathlib
import Scriptlet.Action

/-!
# Sequences of actions

The equations by which readers and machines are run step by step.
-/
namespace Scriptlet

/-- Whether a result is this fault can be computed. -/
instance decidableEqError {ε α : Type} [DecidableEq ε] (r : Except ε α) (e : ε) :
    Decidable (r = .error e) :=
  match r with
  | .ok _ => isFalse nofun
  | .error e' => decidable_of_iff (e' = e) (by rw [Except.error.injEq])

/-- Whether there is a result other than a fault can be computed. -/
instance decidableExistsOk {ε α : Type} (r : Except ε α) : Decidable (∃ a, r = .ok a) :=
  match r with
  | .ok a => isTrue ⟨a, rfl⟩
  | .error _ => isFalse nofun

namespace Action

variable {σ ε α β : Type}

theorem map_eq_ok {result : Except ε α} {g : α → β} {b : β} :
    result.map g = .ok b ↔ ∃ a, result = .ok a ∧ g a = b := by
  cases result <;> simp [Except.map]

theorem mapError_eq_ok {δ : Type} {result : Except ε α} {g : ε → δ} {a : α} :
    result.mapError g = .ok a ↔ result = .ok a := by
  cases result <;> simp [Except.mapError]

theorem mapError_eq_error {δ : Type} {result : Except ε α} {g : ε → δ} {d : δ} :
    result.mapError g = .error d ↔ ∃ e, result = .error e ∧ g e = d := by
  cases result <;> simp [Except.mapError]

theorem runOn_bind_ok {x : Action σ ε α} {f : α → Action σ ε β} {s t : σ} {a : α}
    (h : x.runOn s = (.ok a, t)) : (x >>= f).runOn s = (f a).runOn t := by
  rw [runOn_bind, h]

theorem runOn_bind_error {x : Action σ ε α} {f : α → Action σ ε β} {s t : σ} {e : ε}
    (h : x.runOn s = (.error e, t)) : (x >>= f).runOn s = (.error e, t) := by
  rw [runOn_bind, h]

/-- A sequence that returns consists of two parts that do. -/
theorem runOn_bind_eq_ok {x : Action σ ε α} {f : α → Action σ ε β} {s u : σ} {b : β} :
    (x >>= f).runOn s = (.ok b, u) ↔
      ∃ a t, x.runOn s = (.ok a, t) ∧ (f a).runOn t = (.ok b, u) := by
  rw [runOn_bind]
  rcases h : x.runOn s with ⟨_ | a, t⟩
  · simp
  · constructor
    · exact fun hf => ⟨a, t, rfl, hf⟩
    · rintro ⟨a, t, heq, hf⟩
      cases heq
      exact hf

/-- A sequence fails where a part of it does. -/
theorem fst_runOn_bind_eq_error {x : Action σ ε α} {f : α → Action σ ε β} {s : σ} {e : ε} :
    ((x >>= f).runOn s).1 = .error e ↔
      (x.runOn s).1 = .error e ∨ ∃ a t, x.runOn s = (.ok a, t) ∧ ((f a).runOn t).1 = .error e := by
  rw [runOn_bind]
  rcases h : x.runOn s with ⟨_ | a, t⟩
  · simp
  · simp only [reduceCtorEq, false_or]
    constructor
    · exact fun hf => ⟨a, t, rfl, hf⟩
    · rintro ⟨a, t, heq, hf⟩
      cases heq
      exact hf

@[simp] theorem runOn_map (g : α → β) (x : Action σ ε α) (s : σ) :
    (g <$> x).runOn s = ((x.runOn s).1.map g, (x.runOn s).2) := by
  rw [map_eq_pure_bind, runOn_bind]
  rcases x.runOn s with ⟨_ | a, t⟩ <;> rfl

theorem fst_runOn_map_eq_error {g : α → β} {x : Action σ ε α} {s : σ} {e : ε} :
    ((g <$> x).runOn s).1 = .error e ↔ (x.runOn s).1 = .error e := by
  rw [runOn_map]
  cases (x.runOn s).1 <;> simp [Except.map]

theorem runOn_map_eq_ok {g : α → β} {x : Action σ ε α} {s t : σ} {b : β} :
    (g <$> x).runOn s = (.ok b, t) ↔ ∃ a, x.runOn s = (.ok a, t) ∧ g a = b := by
  simp only [map_eq_pure_bind, runOn_bind_eq_ok, runOn_pure, Prod.mk.injEq, Except.ok.injEq]
  constructor
  · rintro ⟨a, u, h, hg, rfl⟩
    exact ⟨a, h, hg⟩
  · rintro ⟨a, h, hg⟩
    exact ⟨a, t, h, hg, rfl⟩

end Action

end Scriptlet
