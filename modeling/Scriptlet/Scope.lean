-- SUMMARY: Scopes: variables by name, their values and whether they can be assigned to.
import Scriptlet.Table
import Scriptlet.Machine.Error

/-!
# Scopes

A scope holds the variables of one place: those of the program, or those of one
call. A name is declared once. A constant keeps the value it was declared with.
-/
namespace Scriptlet

/-- Can a variable be assigned to? -/
inductive Mutability where
  | mutable
  | constant
  deriving Repr, DecidableEq

/-- A variable. -/
structure Binding where
  value : Value
  mutability : Mutability
  deriving Repr, DecidableEq

/-- The variables of one place. -/
abbrev Scope := Table Binding

/-- Why a variable cannot be assigned to. -/
inductive AssignError where
  | constant
  | undefined
  deriving Repr, DecidableEq

namespace Scope

/-- The value of a variable. -/
def value? (s : Scope) (ident : String) : Option Value := (s.get? ident).map (·.value)

/-- Adds a variable, whose name must be new. -/
def declare (s : Scope) (ident : String) (value : Value) (mutability : Mutability) :
    Except RuntimeError Scope :=
  if s.contains ident then .error (.alreadyDeclared ident)
  else .ok (s.insert ident ⟨value, mutability⟩)

/-- Gives a variable a new value. -/
def assign (s : Scope) (ident : String) (value : Value) : Except AssignError Scope :=
  match s.get? ident with
  | some ⟨_, .mutable⟩ => .ok (s.insert ident ⟨value, .mutable⟩)
  | some ⟨_, .constant⟩ => .error .constant
  | none => .error .undefined

end Scope

/-- The fault of an assignment to the variable. -/
def AssignError.toRuntimeError (ident : String) : AssignError → RuntimeError
  | .constant => .constantAssigned ident
  | .undefined => .unresolved ident

end Scriptlet
