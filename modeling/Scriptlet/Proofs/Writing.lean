-- SUMMARY: How programs are written: the tokens of a tree with as few parentheses as it needs, and their text.
import Mathlib.Data.List.Forall2
import Scriptlet.Proofs.Expressions
import Scriptlet.Proofs.Token.Spelling

/-!
# Writing programs

A tree is written as terminals and these as text, with one space between. An
operator stands in parentheses only where its place asks for operators that bind
more strongly. The left operand of an operator may be a chain of equally strong
ones, the right operand may not.

A float may have many spellings, so writing is a relation. A tree with a negative
integer, a negative float or a callee that is no name is not written at all.
-/
namespace Scriptlet

open Grammar (signKind)
open Terminal (mark word)

/-! ## Texts -/

/-- Words with one space between them. -/
def spaced : List (List Char) → List Char
  | [] => []
  | [w] => w
  | w :: ws => w ++ ' ' :: spaced ws

/-- The text that terminals are written as. -/
def Terminal.sourceText (ts : List Terminal) : String :=
  String.ofList (spaced (ts.map Terminal.spelling))

/-! ## Expressions -/

/-- The kind of the token that an operator is written as. -/
def BinaryOp.kind : BinaryOp → Token.Kind
  | .add => .plus
  | .sub => .minus
  | .mul => .star
  | .div => .slash

/-- Some terminals with commas between them. -/
def commas : List (List Terminal) → List Terminal
  | [] => []
  | [ts] => ts
  | ts :: tss => ts ++ mark .comma :: commas tss

mutual

/-- The tree is written so, where operators must bind with at least the power `least`. -/
inductive Expr.Written : Nat → Expr → List Terminal → Prop
  | null {least : Nat} : Written least .null [mark .null]
  | int {least : Nat} {n : Nat} (h : n < 2 ^ 63) :
    Written least (.int (Int64.ofNat n)) [⟨.integer, some n.repr⟩]
  | float {least : Nat} {text : String} {x : Float} (hpoint : Decimal.IsPointed text.toList)
      (hread : Decimal.readFloat? text.toList = some x) :
    Written least (.float x) [⟨.float, some text⟩]
  | string {least : Nat} (value : String) :
    Written least (.string value) [⟨.string, some value⟩]
  | name {least : Nat} (x : String) : Written least (.name x) [word x]
  | unary {least : Nat} {op : UnaryOp} {e : Expr} {ts : List Terminal} (h : Written 4 e ts) :
    Written least (.unary op e) (mark (signKind op) :: ts)
  | binary {least : Nat} {op : BinaryOp} {l r : Expr} {ts us : List Terminal}
      (hl : Written op.bindingPower.1 l ts) (hr : Written op.bindingPower.2 r us)
      (hplace : least ≤ op.bindingPower.1) :
    Written least (.binary op l r) (ts ++ mark op.kind :: us)
  | parens {least : Nat} {op : BinaryOp} {l r : Expr} {ts us : List Terminal}
      (hl : Written op.bindingPower.1 l ts) (hr : Written op.bindingPower.2 r us)
      (hplace : op.bindingPower.1 < least) :
    Written least (.binary op l r)
      (mark .openParen :: (ts ++ mark op.kind :: us ++ [mark .closeParen]))
  | call {least : Nat} {x : String} {args : List Expr} {tss : List (List Terminal)}
      (h : WrittenAll args tss) :
    Written least (.call (.name x) args)
      (word x :: mark .openParen :: (commas tss ++ [mark .closeParen]))

/-- Each of the trees is written so, where any operator may stand. -/
inductive Expr.WrittenAll : List Expr → List (List Terminal) → Prop
  | nil : WrittenAll [] []
  | cons {e : Expr} {es : List Expr} {ts : List Terminal} {tss : List (List Terminal)}
      (h : Expr.Written 0 e ts) (hs : WrittenAll es tss) : WrittenAll (e :: es) (ts :: tss)

end

/-! ## Programs -/

/-- The statement is written so. A variable that holds null may be declared without a value. -/
inductive Stmt.Written : Stmt → List Terminal → Prop
  | const {x : String} {e : Expr} {ts : List Terminal} (h : e.Written 0 ts) :
    Written (.const x e)
      (mark .constWord :: word x :: mark .equals :: (ts ++ [mark .semicolon]))
  | var {x : String} {e : Expr} {ts : List Terminal} (h : e.Written 0 ts) :
    Written (.var x e) (mark .varWord :: word x :: mark .equals :: (ts ++ [mark .semicolon]))
  | varNull (x : String) : Written (.var x .null) [mark .varWord, word x, mark .semicolon]
  | assign {x : String} {e : Expr} {ts : List Terminal} (h : e.Written 0 ts) :
    Written (.assign x e) (word x :: mark .equals :: (ts ++ [mark .semicolon]))
  | ret {e : Expr} {ts : List Terminal} (h : e.Written 0 ts) :
    Written (.ret e) (mark .returnWord :: (ts ++ [mark .semicolon]))
  | call {callee : Expr} {args : List Expr} {ts : List Terminal}
      (h : (Expr.call callee args).Written 0 ts) :
    Written (.expr (.call callee args)) (ts ++ [mark .semicolon])

/-- The parameter with its default value is written so. -/
inductive OptionalParam.Written : OptionalParam → List Terminal → Prop
  | mk {x : String} {e : Expr} {ts : List Terminal} (h : e.Written 0 ts) :
    Written ⟨x, e⟩ (word x :: mark .equals :: ts)

/-- The function is written so: its parameters, and the statements of its body. -/
inductive Function.Written : Function → List Terminal → Prop
  | mk {f : Function} {optional body : List (List Terminal)}
      (hoptional : f.optional.Forall₂ OptionalParam.Written optional)
      (hbody : f.body.Forall₂ Stmt.Written body) :
    Written f (mark .funcWord :: word f.ident :: mark .openParen ::
      (commas (f.required.map (fun x => [word x]) ++ optional) ++
        mark .closeParen :: mark .openBrace :: (body.flatten ++ [mark .closeBrace])))

/-- The declaration is written so. -/
inductive Decl.Written : Decl → List Terminal → Prop
  | const {x : String} {e : Expr} {ts : List Terminal} (h : e.Written 0 ts) :
    Written (.const x e)
      (mark .constWord :: word x :: mark .equals :: (ts ++ [mark .semicolon]))
  | var {x : String} {e : Expr} {ts : List Terminal} (h : e.Written 0 ts) :
    Written (.var x (some e))
      (mark .varWord :: word x :: mark .equals :: (ts ++ [mark .semicolon]))
  | varNone (x : String) : Written (.var x none) [mark .varWord, word x, mark .semicolon]
  | func {f : Function} {ts : List Terminal} (h : f.Written ts) : Written (.func f) ts

/-- The program is written so. -/
def Program.Written (p : Program) (ts : List Terminal) : Prop :=
  ∃ tss, p.decls.Forall₂ Decl.Written tss ∧ ts = tss.flatten

/-! ## Which programs can be written -/

mutual

/-- The leaves of the tree have spellings, and what it calls are names. -/
def Expr.WellFormed : Expr → Prop
  | .null | .string _ => True
  | .int v => 0 ≤ v
  | .float x => ∃ text : String,
      Decimal.IsPointed text.toList ∧ Decimal.readFloat? text.toList = some x
  | .name x => Token.IsIdentifier x
  | .unary _ e => e.WellFormed
  | .binary _ l r => l.WellFormed ∧ r.WellFormed
  | .call callee args => (∃ x, callee = .name x ∧ Token.IsIdentifier x) ∧ Expr.AllWellFormed args

/-- All of the trees are well-formed. -/
def Expr.AllWellFormed : List Expr → Prop
  | [] => True
  | e :: es => e.WellFormed ∧ Expr.AllWellFormed es

end

/-- Names are identifiers, and only calls stand alone. -/
def Stmt.WellFormed : Stmt → Prop
  | .const x e | .var x e | .assign x e => Token.IsIdentifier x ∧ e.WellFormed
  | .ret e => e.WellFormed
  | .expr e => (∃ callee args, e = .call callee args) ∧ e.WellFormed

/-- Names are identifiers, and those of parameters are distinct. -/
structure Function.WellFormed (f : Function) : Prop where
  ident : Token.IsIdentifier f.ident
  params : ∀ x ∈ f.params, Token.IsIdentifier x
  distinct : f.params.Nodup
  defaults : ∀ o ∈ f.optional, o.default.WellFormed
  body : ∀ s ∈ f.body, s.WellFormed

def Decl.WellFormed : Decl → Prop
  | .const x e => Token.IsIdentifier x ∧ e.WellFormed
  | .var x e => Token.IsIdentifier x ∧ ∀ v ∈ e, v.WellFormed
  | .func f => f.WellFormed

/-- The declarations are well-formed, and no expression is too high. -/
structure Program.WellFormed (p : Program) : Prop where
  decls : ∀ d ∈ p.decls, d.WellFormed
  height : ∀ e ∈ p.exprs, e.height ≤ maxNesting

end Scriptlet
