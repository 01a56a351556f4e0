-- SUMMARY: The identifiers that occur in a program, and programs that have only identifiers of some kind.
import Mathlib
import Scriptlet.Program

/-!
# The identifiers of a program

An identifier occurs where something is declared, read, assigned to or called, and where
it names a parameter. What has only identifiers with some property is within it.
-/
namespace Scriptlet

mutual

/-- The identifiers that are read or called in an expression. -/
def Expr.idents : Expr → List String
  | .null | .int _ | .float _ | .string _ => []
  | .name x => [x]
  | .unary _ e => e.idents
  | .binary _ l r => l.idents ++ r.idents
  | .call callee args => callee.idents ++ Expr.listIdents args

/-- The identifiers of some expressions. -/
def Expr.listIdents : List Expr → List String
  | [] => []
  | e :: es => e.idents ++ Expr.listIdents es

end

def Stmt.idents : Stmt → List String
  | .const x e | .var x e | .assign x e => x :: e.idents
  | .ret e | .expr e => e.idents

def OptionalParam.idents (o : OptionalParam) : List String := o.ident :: o.default.idents

/-- The identifiers of a function: its name, its parameters and what occurs in their default values and
in its statements. -/
def Function.idents (f : Function) : List String :=
  f.ident :: (f.required ++ f.optional.flatMap OptionalParam.idents ++ f.body.flatMap Stmt.idents)

def Decl.idents : Decl → List String
  | .const x e => x :: e.idents
  | .var x none => [x]
  | .var x (some e) => x :: e.idents
  | .func f => f.idents

def Program.idents (p : Program) : List String := p.decls.flatMap Decl.idents

/-! ## Within a set of identifiers -/

variable {N : String → Prop}

/-- All identifiers of the expression have the property. -/
def Expr.Within (N : String → Prop) (e : Expr) : Prop := ∀ x ∈ e.idents, N x

def Stmt.Within (N : String → Prop) (s : Stmt) : Prop := ∀ x ∈ s.idents, N x

def OptionalParam.Within (N : String → Prop) (o : OptionalParam) : Prop := ∀ x ∈ o.idents, N x

def Function.Within (N : String → Prop) (f : Function) : Prop := ∀ x ∈ f.idents, N x

def Decl.Within (N : String → Prop) (d : Decl) : Prop := ∀ x ∈ d.idents, N x

def Program.Within (N : String → Prop) (p : Program) : Prop := ∀ x ∈ p.idents, N x

namespace Expr

theorem within_name {x : String} : (name x).Within N ↔ N x := by
  simp [Within, idents]

theorem within_unary {op : UnaryOp} {e : Expr} : (unary op e).Within N ↔ e.Within N := by
  rw [Within, idents, Within]

theorem within_binary {op : BinaryOp} {l r : Expr} :
    (binary op l r).Within N ↔ l.Within N ∧ r.Within N := by
  rw [Within, idents, List.forall_mem_append]
  rfl

theorem forall_mem_listIdents {es : List Expr} :
    (∀ x ∈ listIdents es, N x) ↔ ∀ e ∈ es, e.Within N := by
  induction es with
  | nil => simp [listIdents]
  | cons e es ih =>
    rw [listIdents, List.forall_mem_append, ih, List.forall_mem_cons]
    rfl

theorem within_call {callee : Expr} {args : List Expr} :
    (call callee args).Within N ↔ callee.Within N ∧ ∀ e ∈ args, e.Within N := by
  rw [Within, idents, List.forall_mem_append, forall_mem_listIdents]
  rfl

end Expr

theorem OptionalParam.within_iff {o : OptionalParam} :
    o.Within N ↔ N o.ident ∧ o.default.Within N := List.forall_mem_cons

/-- What is within a set of identifiers in a function. -/
structure Function.PartsWithin (N : String → Prop) (f : Function) : Prop where
  ident : N f.ident
  required : ∀ x ∈ f.required, N x
  optional : ∀ o ∈ f.optional, o.Within N
  body : ∀ s ∈ f.body, s.Within N

theorem Function.Within.parts {f : Function} (h : f.Within N) : f.PartsWithin N := by
  rw [Within, idents, List.forall_mem_cons, List.forall_mem_append, List.forall_mem_append,
    List.forall_mem_flatMap, List.forall_mem_flatMap] at h
  exact ⟨h.1, h.2.1.1, h.2.1.2, h.2.2⟩

namespace Program

theorem Within.decls {p : Program} (h : p.Within N) : ∀ d ∈ p.decls, d.Within N :=
  List.forall_mem_flatMap.mp h

theorem Within.functions {p : Program} (h : p.Within N) : ∀ f ∈ p.functions, f.Within N := by
  intro f hf
  obtain ⟨d, hd, hfd⟩ := List.mem_filterMap.mp hf
  have hwithin := h.decls d hd
  cases d with
  | func g =>
    cases hfd
    exact hwithin
  | _ => cases hfd

end Program

/-! ## Without a condition -/

theorem Expr.within_true (e : Expr) : e.Within fun _ => True := fun _ _ => trivial

theorem Function.within_true (f : Function) : f.Within fun _ => True := fun _ _ => trivial

theorem Decl.within_true (d : Decl) : d.Within fun _ => True := fun _ _ => trivial

theorem Program.within_true (p : Program) : p.Within fun _ => True := fun _ _ => trivial

end Scriptlet
