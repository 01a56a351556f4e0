-- SUMMARY: The values of the language: their types, their display form and the two casts.
import Scriptlet.Decimal.Layout

/-!
# Values

What an expression evaluates to. Integers have 64 bits and a sign, floats are
binary64.
-/
namespace Scriptlet

/-- A value. -/
inductive Value where
  | null
  | int (n : Int64)
  | float (x : Float)
  | string (s : String)
  deriving Repr, DecidableEq

/-- The type of a value. -/
inductive Value.Ty where
  | null
  | int
  | float
  | string
  deriving Repr, DecidableEq

/-- The name of a type. -/
def Value.Ty.name : Ty → String
  | .null => "null"
  | .int => "int"
  | .float => "float"
  | .string => "string"

namespace Value

/-- The type of a value. -/
def ty : Value → Ty
  | .null => .null
  | .int _ => .int
  | .float _ => .float
  | .string _ => .string

/-- The value as an integer; only an integer is one. -/
def toInt? : Value → Option Int64
  | .int n => some n
  | _ => none

/-- The value as a float: a float itself, and for an integer the nearest float. -/
def toFloat? : Value → Option Float
  | .int n => some (Float.ofInt n.toInt)
  | .float x => some x
  | _ => none

/-- Do two values have the same type and equal content? Floats are compared as numbers: NaN
differs from itself, and the two zeros are equal. -/
def equals : Value → Value → Bool
  | .null, .null => true
  | .int m, .int n => m == n
  | .float x, .float y => x == y
  | .string s, .string t => s == t
  | _, _ => false

/-- The form in which a value is printed. -/
def display : Value → String
  | .null => "null"
  | .int n => toString n.toInt
  | .float x => floatText x
  | .string s => s

end Value

end Scriptlet
