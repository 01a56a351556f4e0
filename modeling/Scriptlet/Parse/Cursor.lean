-- SUMMARY: The state of a parser, and the steps that look at tokens and consume them.
import Scriptlet.Action
import Scriptlet.Parse.Error

/-!
# Cursors

A cursor stands before a token of a list. Past the last token it keeps seeing
that token, so a list that ends with the end of input never runs out. Besides
its place it counts the primary expressions that are open, and it knows the
height of the tree that was read last.
-/
namespace Scriptlet

/-- The state of a parser. -/
structure Cursor where
  /-- The tokens from the current one on. -/
  rest : List Token
  /-- The token seen once `rest` is used up. -/
  final : Token
  /-- The number of primary expressions that are open. -/
  depth : Nat := 0
  /-- The height of the expression read last. -/
  height : Nat := 0
  deriving Repr, DecidableEq

namespace Cursor

/-- A cursor before the token number `index` of the list. An empty list is seen as an end of
input at the beginning. -/
def atIndex (tokens : List Token) (index : Nat) : Cursor where
  rest := tokens.drop index
  final := tokens.getLast?.getD (Token.atEnd 0)

/-- A cursor before the first token of the list. -/
def ofTokens (tokens : List Token) : Cursor := atIndex tokens 0

/-- The token that the cursor stands before. -/
def current (c : Cursor) : Token := c.rest.head?.getD c.final

/-- The token after the current one. -/
def next (c : Cursor) : Token := c.rest.tail.head?.getD c.final

/-- The cursor behind the current token. -/
def advance (c : Cursor) : Cursor := { c with rest := c.rest.tail }

/-- The fault that something else was expected where the cursor stands. -/
def unexpected (c : Cursor) (expected : Expected) : ParseError :=
  if c.current.kind = .endOfInput then .unexpectedEnd expected c.current.start
  else .unexpectedToken expected c.current.kind c.current.start

end Cursor

/-- An action that reads from a cursor. -/
abbrev Parse (α : Type) := Action Cursor ParseError α

namespace Parse

/-- The current token. -/
def current : Parse Token := return (← get).current

/-- Steps behind the current token. -/
def advance : Parse Unit := modify Cursor.advance

/-- Fails because something else was expected. -/
def unexpected {α : Type} (expected : Expected) : Parse α := do
  throw ((← get).unexpected expected)

/-- Consumes the current token if it is of the kind, and tells whether it was. -/
def eat (kind : Token.Kind) : Parse Bool := do
  if (← current).kind = kind then
    advance
    return true
  else return false

/-- Consumes a token that must be of the kind. -/
def expect (kind : Token.Kind) : Parse Unit := do
  if !(← eat kind) then unexpected (.kind kind)

/-- Consumes an identifier and returns its name. A token without a name is none. -/
def ident : Parse String := do
  match ← current with
  | ⟨.identifier, some name, _, _⟩ =>
    advance
    return name
  | _ => unexpected (.kind .identifier)

/-- Records the height of a tree whose subtrees are at most `below` high. A tree above the
limit is refused at `offset`. -/
def grow (below offset : Nat) : Parse Unit := do
  if maxNesting ≤ below then throw (.nestingTooDeep offset)
  modify fun c => { c with height := below + 1 }

/-- Reads with one more primary expression open. -/
def nested {α : Type} (x : Parse α) : Parse α := do
  let c ← get
  if maxNesting ≤ c.depth then throw (.nestingTooDeep c.current.start)
  set { c with depth := c.depth + 1 }
  x.thenAlways fun c => { c with depth := c.depth - 1 }

/-- A token for each round of a loop that consumes one in each: those that are left, and one
more for the round that finds none. -/
def rounds : Parse (List Token) := do
  let c ← get
  return c.final :: c.rest

end Parse

end Scriptlet
