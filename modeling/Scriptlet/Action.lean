-- SUMMARY: Actions on a state that may fail, and what is done to the state whether they fail or not.

/-!
# Actions

An action reads and changes a state and returns a value or fails. A failure
keeps what was done to the state before it: the position of a reader that
stopped, the output of a program that failed.
-/
namespace Scriptlet

/-- A computation over a state `σ` that returns an `α` or fails with an `ε`. -/
abbrev Action (σ ε α : Type) := ExceptT ε (StateM σ) α

namespace Action

variable {σ ε α β : Type}

/-- The result of an action from a state, with the state it leaves. -/
def runOn (x : Action σ ε α) (s : σ) : Except ε α × σ := (ExceptT.run x).run s

/-- Changes the state after an action, whether it returned or failed. -/
def thenAlways (x : Action σ ε α) (f : σ → σ) : Action σ ε α :=
  ExceptT.mk do
    let result ← ExceptT.run x
    modify f
    return result

@[simp] theorem runOn_pure (a : α) (s : σ) : runOn (pure a : Action σ ε α) s = (.ok a, s) := rfl

@[simp] theorem runOn_throw (e : ε) (s : σ) :
    runOn (throw e : Action σ ε α) s = (.error e, s) := rfl

@[simp] theorem runOn_get (s : σ) : runOn (get : Action σ ε σ) s = (.ok s, s) := rfl

@[simp] theorem runOn_set (s t : σ) : runOn (set t : Action σ ε PUnit) s = (.ok (), t) := rfl

@[simp] theorem runOn_modify (f : σ → σ) (s : σ) :
    runOn (modify f : Action σ ε PUnit) s = (.ok (), f s) := rfl

@[simp] theorem runOn_thenAlways (x : Action σ ε α) (f : σ → σ) (s : σ) :
    (x.thenAlways f).runOn s = ((x.runOn s).1, f (x.runOn s).2) := rfl

theorem runOn_bind (x : Action σ ε α) (f : α → Action σ ε β) (s : σ) :
    (x >>= f).runOn s = match x.runOn s with
      | (.ok a, t) => (f a).runOn t
      | (.error e, t) => (.error e, t) := by
  simp only [runOn, ExceptT.run_bind, StateT.run_bind]
  cases h : (ExceptT.run x).run s with
  | mk result t => cases result <;> rfl

end Action

end Scriptlet
