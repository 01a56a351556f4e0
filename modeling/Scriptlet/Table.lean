-- SUMMARY: Tables from names to entries, kept in the order in which the names arrived.

/-!
# Tables

A table has at most one entry for a name. Writing to a name that is present
replaces its entry where it stands; a new name goes to the end.
-/
namespace Scriptlet

/-- Entries by name. -/
structure Table (α : Type) where
  entries : List (String × α) := []
  deriving Repr, DecidableEq

namespace Table

variable {α : Type}

/-- Writes an entry into a list of entries. -/
def insertInto (name : String) (a : α) : List (String × α) → List (String × α)
  | [] => [(name, a)]
  | (other, b) :: es =>
    if other = name then (name, a) :: es else (other, b) :: insertInto name a es

/-- The entry of a name, if there is one. -/
def get? (t : Table α) (name : String) : Option α := t.entries.lookup name

/-- Is there an entry of the name? -/
def contains (t : Table α) (name : String) : Bool := (t.get? name).isSome

/-- Writes the entry of a name. -/
def insert (t : Table α) (name : String) (a : α) : Table α := ⟨insertInto name a t.entries⟩

@[simp] theorem get?_empty (name : String) : ({} : Table α).get? name = none := rfl

theorem lookup_insertInto (name other : String) (a : α) (es : List (String × α)) :
    (insertInto name a es).lookup other = if other = name then some a else es.lookup other := by
  induction es with
  | nil => by_cases h : other = name <;> simp [insertInto, List.lookup_cons, h, beq_eq_false_iff_ne.2]
  | cons e es ih =>
    obtain ⟨k, b⟩ := e
    simp only [insertInto]
    split
    · next hk =>
      subst hk
      by_cases h : other = k <;> simp [List.lookup_cons, h, beq_eq_false_iff_ne.2]
    · next hk =>
      by_cases h : other = k
      · have : other ≠ name := fun e => hk (h ▸ e)
        simp_all
      · simp [List.lookup_cons, beq_eq_false_iff_ne.2 h, ih]

/-- What is written is what is read, and other names keep their entries. -/
@[simp] theorem get?_insert (t : Table α) (name other : String) (a : α) :
    (t.insert name a).get? other = if other = name then some a else t.get? other :=
  lookup_insertInto name other a t.entries

end Table

end Scriptlet
