-- SUMMARY: The expressions that stand in a program, in the order they were written.
import Mathlib
import Scriptlet.Program

/-!
# The expressions of a program

Expressions stand in initializers, in default values and in statements. A
variable of a function that is declared without a value counts with the null it
holds.
-/
namespace Scriptlet

/-- The expression of a statement. -/
def Stmt.value : Stmt → Expr
  | .const _ value | .var _ value | .assign _ value | .ret value | .expr value => value

def Function.exprs (f : Function) : List Expr :=
  f.optional.map OptionalParam.default ++ f.body.map Stmt.value

def Decl.exprs : Decl → List Expr
  | .const _ value => [value]
  | .var _ value => value.toList
  | .func f => f.exprs

def Program.exprs (p : Program) : List Expr := p.decls.flatMap Decl.exprs

end Scriptlet
