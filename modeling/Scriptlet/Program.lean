-- SUMMARY: Programs: statements, functions with optional parameters, and top-level declarations.
import Scriptlet.Expr

/-!
# Programs

A program is a list of declarations in the order they were written. Functions
hold statements; nothing nests deeper than that.
-/
namespace Scriptlet

/-- A statement of a function's body. A variable declared without a value holds null. -/
inductive Stmt where
  | const (ident : String) (value : Expr)
  | var (ident : String) (value : Expr)
  | assign (ident : String) (value : Expr)
  | ret (value : Expr)
  | expr (value : Expr)
  deriving Repr

/-- A parameter that a call may leave out. -/
structure OptionalParam where
  ident : String
  default : Expr
  deriving Repr

/-- A function. Its required parameters come before its optional ones. -/
structure Function where
  ident : String
  required : List String
  optional : List OptionalParam
  body : List Stmt
  deriving Repr

/-- The least number of arguments that a call gives. -/
def Function.minArgs (f : Function) : Nat := f.required.length

/-- The greatest number of arguments that a call gives. -/
def Function.maxArgs (f : Function) : Nat := f.required.length + f.optional.length

/-- The names of all parameters in order. -/
def Function.params (f : Function) : List String := f.required ++ f.optional.map (·.ident)

/-- A top-level declaration. -/
inductive Decl where
  | const (ident : String) (value : Expr)
  | var (ident : String) (value : Option Expr)
  | func (function : Function)
  deriving Repr

/-- A program, in the order it was written. -/
structure Program where
  decls : List Decl
  deriving Repr

/-- The functions that a program declares. -/
def Program.functions (p : Program) : List Function :=
  p.decls.filterMap fun
    | .func f => some f
    | _ => none

end Scriptlet
