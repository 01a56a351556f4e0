-- SUMMARY: The grammar of the language: derivations as trees, the tokens they spell and the programs they mean.
import Scriptlet.Proofs.Expressions
import Scriptlet.Token
import Scriptlet.Parse.Error
import Scriptlet.Decimal.Reader

/-!
# The grammar

    program   := declaration*
    declaration := 'const' name '=' sum ';' | 'var' name ('=' sum)? ';'
                 | 'func' name '(' (param (',' param)*)? ')' '{' statement* '}'
    param     := name ('=' sum)?
    statement := 'const' name '=' sum ';' | 'var' name ('=' sum)? ';'
               | name '=' sum ';' | call ';' | 'return' sum ';'
    sum       := term (('+' | '-') term)*
    term      := factor (('*' | '/') factor)*
    factor    := literal | name | call | ('+' | '-') factor | '(' sum ')'
    call      := name '(' (sum (',' sum)*)? ')'

A derivation is a tree with a constructor for each alternative. What it spells
and what it means are functions of the tree, so a text is ambiguous exactly if
two trees spell it. A repetition is a tail that is applied to what stands before
it; applied from the left, it makes operators lean to the left.
-/
namespace Scriptlet

/-! ## Terminals -/

/-- A token without the place where it stands. -/
structure Terminal where
  kind : Token.Kind
  text : Option String
  deriving Repr, DecidableEq

/-- What the grammar sees of a token. -/
def Token.terminal (t : Token) : Terminal := ⟨t.kind, t.text⟩

namespace Terminal

/-- A terminal with a single spelling. -/
abbrev mark (kind : Token.Kind) : Terminal := ⟨kind, none⟩

/-- A name. -/
abbrev word (name : String) : Terminal := ⟨.identifier, some name⟩

/-- An integer literal is a number of at most 63 bits. -/
def InRange (t : Terminal) : Prop :=
  t.kind = .integer → Nat.ofDigitChars 10 (t.text.getD "").toList 0 < 2 ^ 63

end Terminal

namespace Grammar

open Terminal (mark word)

/-! ## Expressions -/

/-- A literal as it is written; of a string, its value. -/
inductive Literal where
  | integer (digits : String)
  | float (text : String)
  | string (value : String)
  | null
  deriving Repr, DecidableEq

/-- The operators between terms. -/
inductive AddOp where
  | plus
  | minus
  deriving Repr, DecidableEq

/-- The operators between factors. -/
inductive MulOp where
  | times
  | over
  deriving Repr, DecidableEq

mutual

inductive Factor where
  | literal (literal : Literal)
  | name (ident : String)
  | call (call : Call)
  | signed (sign : UnaryOp) (factor : Factor)
  | parens (sum : Sum)

inductive Call where
  | plain (ident : String)
  | applied (ident : String) (args : Args)

inductive Args where
  | last (sum : Sum)
  | more (sum : Sum) (args : Args)

inductive Term where
  | mk (first : Factor) (tail : TermTail)

inductive TermTail where
  | done
  | more (op : MulOp) (factor : Factor) (tail : TermTail)

inductive Sum where
  | mk (first : Term) (tail : SumTail)

inductive SumTail where
  | done
  | more (op : AddOp) (term : Term) (tail : SumTail)

end

def Literal.terminal : Literal → Terminal
  | .integer digits => ⟨.integer, some digits⟩
  | .float text => ⟨.float, some text⟩
  | .string value => ⟨.string, some value⟩
  | .null => mark .null

/-- The value of a literal. The spelling of a float always denotes one. -/
def Literal.tree : Literal → Expr
  | .integer digits => .int (Int64.ofNat (Nat.ofDigitChars 10 digits.toList 0))
  | .float text => .float ((Decimal.readFloat? text.toList).getD 0)
  | .string value => .string value
  | .null => .null

def AddOp.kind : AddOp → Token.Kind
  | .plus => .plus
  | .minus => .minus

def AddOp.op : AddOp → BinaryOp
  | .plus => .add
  | .minus => .sub

def MulOp.kind : MulOp → Token.Kind
  | .times => .star
  | .over => .slash

def MulOp.op : MulOp → BinaryOp
  | .times => .mul
  | .over => .div

def signKind : UnaryOp → Token.Kind
  | .plus => .plus
  | .minus => .minus

/-! ## What a derivation spells -/

mutual

def Factor.yield : Factor → List Terminal
  | .literal l => [l.terminal]
  | .name x => [word x]
  | .call c => c.yield
  | .signed sign f => mark (signKind sign) :: f.yield
  | .parens s => mark .openParen :: (s.yield ++ [mark .closeParen])

def Call.yield : Call → List Terminal
  | .plain x => [word x, mark .openParen, mark .closeParen]
  | .applied x args => word x :: mark .openParen :: (args.yield ++ [mark .closeParen])

def Args.yield : Args → List Terminal
  | .last s => s.yield
  | .more s args => s.yield ++ mark .comma :: args.yield

def Term.yield : Term → List Terminal
  | .mk f tail => f.yield ++ tail.yield

def TermTail.yield : TermTail → List Terminal
  | .done => []
  | .more op f tail => mark op.kind :: (f.yield ++ tail.yield)

def Sum.yield : Sum → List Terminal
  | .mk t tail => t.yield ++ tail.yield

def SumTail.yield : SumTail → List Terminal
  | .done => []
  | .more op t tail => mark op.kind :: (t.yield ++ tail.yield)

end

/-! ## What a derivation means -/

mutual

def Factor.tree : Factor → Expr
  | .literal l => l.tree
  | .name x => .name x
  | .call c => c.tree
  | .signed sign f => .unary sign f.tree
  | .parens s => s.tree

def Call.tree : Call → Expr
  | .plain x => .call (.name x) []
  | .applied x args => .call (.name x) args.trees

def Args.trees : Args → List Expr
  | .last s => [s.tree]
  | .more s args => s.tree :: args.trees

def Term.tree : Term → Expr
  | .mk f tail => tail.onto f.tree

/-- The tree of a tail behind a left operand. -/
def TermTail.onto : TermTail → Expr → Expr
  | .done, lhs => lhs
  | .more op f tail, lhs => tail.onto (.binary op.op lhs f.tree)

def Sum.tree : Sum → Expr
  | .mk t tail => tail.onto t.tree

/-- The tree of a tail behind a left operand. -/
def SumTail.onto : SumTail → Expr → Expr
  | .done, lhs => lhs
  | .more op t tail, lhs => tail.onto (.binary op.op lhs t.tree)

end

/-! ## How deep factors nest -/

mutual

def Factor.nesting : Factor → Nat
  | .literal _ | .name _ => 1
  | .call c => c.nesting + 1
  | .signed _ f => f.nesting + 1
  | .parens s => s.nesting + 1

/-- How deep factors nest in the arguments of a call. -/
def Call.nesting : Call → Nat
  | .plain _ => 0
  | .applied _ args => args.nesting

def Args.nesting : Args → Nat
  | .last s => s.nesting
  | .more s args => max s.nesting args.nesting

def Term.nesting : Term → Nat
  | .mk f tail => max f.nesting tail.nesting

def TermTail.nesting : TermTail → Nat
  | .done => 0
  | .more _ f tail => max f.nesting tail.nesting

def Sum.nesting : Sum → Nat
  | .mk t tail => max t.nesting tail.nesting

def SumTail.nesting : SumTail → Nat
  | .done => 0
  | .more _ t tail => max t.nesting tail.nesting

end

/-! ## Statements and declarations -/

inductive Statement where
  | const (ident : String) (value : Sum)
  | var (ident : String) (value : Option Sum)
  | assign (ident : String) (value : Sum)
  | ret (value : Sum)
  | call (call : Call)

structure Param where
  ident : String
  default : Option Sum

structure FuncDecl where
  ident : String
  params : List Param
  body : List Statement

inductive Declaration where
  | const (ident : String) (value : Sum)
  | var (ident : String) (value : Option Sum)
  | func (function : FuncDecl)

/-- The derivation of a program. -/
structure Derivation where
  decls : List Declaration

/-! ## What they spell -/

/-- An equals sign and a value, if there is one. -/
def initializer : Option Sum → List Terminal
  | none => []
  | some s => mark .equals :: s.yield

def Statement.yield : Statement → List Terminal
  | .const x s => mark .constWord :: word x :: mark .equals :: (s.yield ++ [mark .semicolon])
  | .var x s => mark .varWord :: word x :: (initializer s ++ [mark .semicolon])
  | .assign x s => word x :: mark .equals :: (s.yield ++ [mark .semicolon])
  | .ret s => mark .returnWord :: (s.yield ++ [mark .semicolon])
  | .call c => c.yield ++ [mark .semicolon]

def Param.yield (p : Param) : List Terminal := word p.ident :: initializer p.default

/-- Parameters with commas between them. -/
def paramList : List Param → List Terminal
  | [] => []
  | [p] => p.yield
  | p :: ps => p.yield ++ mark .comma :: paramList ps

def FuncDecl.yield (f : FuncDecl) : List Terminal :=
  mark .funcWord :: word f.ident :: mark .openParen :: (paramList f.params ++
    mark .closeParen :: mark .openBrace :: (f.body.flatMap Statement.yield ++
      [mark .closeBrace]))

def Declaration.yield : Declaration → List Terminal
  | .const x s => mark .constWord :: word x :: mark .equals :: (s.yield ++ [mark .semicolon])
  | .var x s => mark .varWord :: word x :: (initializer s ++ [mark .semicolon])
  | .func f => f.yield

def Derivation.yield (d : Derivation) : List Terminal := d.decls.flatMap Declaration.yield

/-! ## What they mean -/

def Statement.tree : Statement → Stmt
  | .const x s => .const x s.tree
  | .var x s => .var x ((s.map Sum.tree).getD .null)
  | .assign x s => .assign x s.tree
  | .ret s => .ret s.tree
  | .call c => .expr c.tree

/-- The name of a required parameter. -/
def Param.required? (p : Param) : Option String :=
  if p.default.isSome then none else some p.ident

def Param.optional? (p : Param) : Option OptionalParam :=
  p.default.map fun s => ⟨p.ident, s.tree⟩

def FuncDecl.tree (f : FuncDecl) : Function where
  ident := f.ident
  required := f.params.filterMap Param.required?
  optional := f.params.filterMap Param.optional?
  body := f.body.map Statement.tree

def Declaration.tree : Declaration → Decl
  | .const x s => .const x s.tree
  | .var x s => .var x (s.map Sum.tree)
  | .func f => .func f.tree

def Derivation.tree (d : Derivation) : Program := ⟨d.decls.map Declaration.tree⟩

/-! ## Which of them are programs -/

/-- How deep factors nest in a value, if there is one. -/
def initializerNesting (s : Option Sum) : Nat := (s.map Sum.nesting).getD 0

def Statement.nesting : Statement → Nat
  | .const _ s | .assign _ s | .ret s => s.nesting
  | .var _ s => initializerNesting s
  | .call c => c.nesting

/-- Parameters have names of their own, and the required ones come first. -/
structure ParamsOrdered (ps : List Param) : Prop where
  distinct : (ps.map Param.ident).Nodup
  requiredFirst : ps.Pairwise fun p q => p.default.isSome → q.default.isSome

def FuncDecl.nestings (f : FuncDecl) : List Nat :=
  f.params.map (initializerNesting ·.default) ++ f.body.map Statement.nesting

def Declaration.nestings : Declaration → List Nat
  | .const _ s => [s.nesting]
  | .var _ s => [initializerNesting s]
  | .func f => f.nestings

/-- What the parser asks of a derivation besides that it spells the tokens. -/
structure Declaration.Admissible (d : Declaration) : Prop where
  inRange : ∀ t ∈ d.yield, t.InRange
  params : ∀ f, d = .func f → ParamsOrdered f.params
  height : ∀ e ∈ d.tree.exprs, e.height ≤ maxNesting
  nesting : ∀ n ∈ d.nestings, n ≤ maxNesting

end Grammar

end Scriptlet
