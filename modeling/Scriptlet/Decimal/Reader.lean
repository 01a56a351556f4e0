-- SUMMARY: Reading floating-point texts: the grammar that is accepted and the value that is nearest.
import Scriptlet.Decimal.Numeral

/-!
# Reading floating-point texts

A float text is an optional sign before `inf`, `infinity` or `nan` in any case,
or before digits with an optional point and an optional exponent. At least one
digit stands before or after the point. The value is the nearest double, with
ties to even; what lies beyond the largest double reads as an infinity.
-/
namespace Scriptlet.Decimal

/-- An unsigned decimal text taken apart: `coefficient * 10 ^ exponent`. -/
structure Scientific where
  coefficient : Nat
  exponent : Int
  deriving Repr, DecidableEq

/-- Reads what may follow the digits of a mantissa: nothing, or `e` and an integer. -/
def readExponent? : List Char → Option Int
  | [] => some 0
  | c :: cs => if c = 'e' ∨ c = 'E' then readInt? cs else none

/-- Reads digits with an optional point among them and an optional exponent. -/
def readScientific? (cs : List Char) : Option Scientific :=
  let (whole, rest) := cs.span Char.isDigit
  let (fraction, rest) := match rest with
    | '.' :: rest => rest.span Char.isDigit
    | rest => ([], rest)
  if whole.isEmpty && fraction.isEmpty then none
  else (readExponent? rest).map fun exponent =>
    ⟨Nat.ofDigitChars 10 (whole ++ fraction) 0, exponent - fraction.length⟩

/-- The double nearest to a decimal. A value of at least `10 ^ 310` is beyond the
largest double, and one below `10 ^ -330` is below half the least one; these are
told by their digits alone, so that no power of ten beyond that is computed. -/
def Scientific.toFloat (s : Scientific) : Float :=
  let leading := s.exponent + (Nat.toDigits 10 s.coefficient).length
  if s.coefficient = 0 ∨ leading < -330 then 0
  else if 310 < leading then Float.ofBits 0x7FF0000000000000
  else Float.ofScientific s.coefficient (s.exponent < 0) s.exponent.natAbs

/-- Reads a float text without a sign. -/
def readMagnitude? (cs : List Char) : Option Float :=
  let name := String.ofList (cs.map Char.toLower)
  if name = "inf" ∨ name = "infinity" then some (Float.ofBits 0x7FF0000000000000)
  else if name = "nan" then some (Float.ofBits 0x7FF8000000000000)
  else (readScientific? cs).map Scientific.toFloat

/-- Reads a float text that may begin with a sign. -/
def readFloat? : List Char → Option Float
  | '-' :: cs => (readMagnitude? cs).map fun x => -x
  | '+' :: cs => readMagnitude? cs
  | cs => readMagnitude? cs

end Scriptlet.Decimal
