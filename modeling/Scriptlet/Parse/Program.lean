-- SUMMARY: Reading statements, functions, declarations and whole programs.
import Scriptlet.Program
import Scriptlet.Parse.Expr

/-!
# Reading programs

The first token of a statement or declaration decides its form. A name at the
beginning of a statement starts a call if a parenthesis follows, and an
assignment otherwise. Loops run until their closing token; each round consumes a
token, or fails.
-/
namespace Scriptlet

namespace Parse

-- ---------------------------------------------------------------------------
-- Bindings and statements
-- ---------------------------------------------------------------------------

/-- Reads `const name = expr;`. -/
def constBinding : Parse (String × Expr) := do
  expect .constWord
  let ident ← ident
  expect .equals
  let value ← expr
  expect .semicolon
  return (ident, value)

/-- Reads `var name = expr;` or `var name;`. -/
def varBinding : Parse (String × Option Expr) := do
  expect .varWord
  let ident ← ident
  let value ← if ← eat .equals then some <$> expr else pure none
  expect .semicolon
  return (ident, value)

/-- Reads `name = expr;`. -/
def assignment : Parse Stmt := do
  let ident ← ident
  expect .equals
  let value ← expr
  expect .semicolon
  return .assign ident value

/-- Reads `return expr;`. -/
def returnStmt : Parse Stmt := do
  expect .returnWord
  let value ← expr
  expect .semicolon
  return .ret value

/-- Reads `name(args);`. -/
def callStmt : Parse Stmt := do
  let value ← call expr
  expect .semicolon
  return .expr value

/-- Reads a statement. -/
def stmt : Parse Stmt := do
  let c ← get
  match c.current.kind with
  | .constWord => do
    let (ident, value) ← constBinding
    return .const ident value
  | .varWord => do
    let (ident, value) ← varBinding
    return .var ident (value.getD .null)
  | .returnWord => returnStmt
  | .identifier => if c.next.kind = .openParen then callStmt else assignment
  | _ => unexpected .statement

-- ---------------------------------------------------------------------------
-- Functions
-- ---------------------------------------------------------------------------

/-- The parameters of a function that were read so far. -/
structure Params where
  required : List String := []
  optional : List OptionalParam := []

/-- Is there a parameter of this name? -/
def Params.contains (ps : Params) (ident : String) : Bool :=
  ps.required.contains ident || ps.optional.any (·.ident == ident)

/-- Reads one parameter of the function behind those given. Its name must be new, and it must
have a default value if one before it has. -/
def param (function : String) (ps : Params) : Parse Params := do
  let start := (← current).start
  let ident ← ident
  if ps.contains ident then throw (.duplicateParam function ident start)
  if ← eat .equals then
    let default ← expr
    return { ps with optional := ps.optional ++ [⟨ident, default⟩] }
  else if ps.optional.isEmpty then return { ps with required := ps.required ++ [ident] }
  else throw (.requiredAfterOptional function ident start)

/-- Reads parameters up to the closing parenthesis, the first of which starts here. -/
def params (function : String) : (rounds : List Token) → Params → Parse Params
  | [], _ => unexpected .commaOrCloseParen
  | _ :: rounds, ps => do
    let ps ← param function ps
    if ← eat .closeParen then return ps
    else if ← eat .comma then params function rounds ps
    else unexpected .commaOrCloseParen

/-- Reads the parameters of a function, if it has any, and the closing parenthesis. -/
def paramList (function : String) : Parse Params := do
  if ← eat .closeParen then return {} else params function (← rounds) {}

/-- Reads statements up to the closing brace. -/
def body : (rounds : List Token) → Parse (List Stmt)
  | [] => unexpected .statement
  | _ :: rounds => do
    if ← eat .closeBrace then return []
    else
      let first ← stmt
      let others ← body rounds
      return first :: others

/-- Reads a function: its name, its parameters and its body. -/
def function : Parse Function := do
  expect .funcWord
  let ident ← ident
  expect .openParen
  let ps ← paramList ident
  expect .openBrace
  let body ← body (← rounds)
  return ⟨ident, ps.required, ps.optional, body⟩

-- ---------------------------------------------------------------------------
-- Programs
-- ---------------------------------------------------------------------------

/-- Reads a declaration. -/
def decl : Parse Decl := do
  match (← current).kind with
  | .constWord => do
    let (ident, value) ← constBinding
    return .const ident value
  | .varWord => do
    let (ident, value) ← varBinding
    return .var ident value
  | .funcWord => .func <$> function
  | _ => unexpected .declaration

/-- Reads declarations up to the end of input. -/
def decls : (rounds : List Token) → Parse (List Decl)
  | [] => unexpected .declaration
  | _ :: rounds => do
    if (← current).kind = .endOfInput then return []
    else
      let first ← decl
      let others ← decls rounds
      return first :: others

/-- Reads a program. -/
def program : Parse Program := do
  let decls ← decls (← rounds)
  return ⟨decls⟩

end Parse

/-- The program that a list of tokens is. -/
def Program.ofTokens (tokens : List Token) : Except ParseError Program :=
  (Parse.program.runOn (Cursor.ofTokens tokens)).1

/-- The program that a text is. -/
def Program.ofText (text : String) : Except SourceError Program :=
  match Token.ofText text with
  | .error e => .error (.lex e)
  | .ok tokens =>
    match Program.ofTokens tokens with
    | .error e => .error (.parse e)
    | .ok program => .ok program

end Scriptlet
