-- SUMMARY: Reading integer numerals in base ten: naturals, signed 64-bit integers and 64-bit counts.

/-!
# Decimal numerals

Reading the digits of a whole number. Only the ASCII digits are digits, at
least one is needed, and nothing may stand around or between them. Numerals are
written with `Nat.toDigits 10`, whose inverse `Nat.ofDigitChars 10` is what the
readers here use.
-/
namespace Scriptlet.Decimal

/-- Reads a numeral without a sign. -/
def readNat? (cs : List Char) : Option Nat :=
  if cs.isEmpty || !cs.all Char.isDigit then none else some (Nat.ofDigitChars 10 cs 0)

/-- Reads a numeral that may begin with a sign. -/
def readInt? : List Char → Option Int
  | '-' :: cs => (readNat? cs).map fun n => -(n : Int)
  | '+' :: cs => (readNat? cs).map Int.ofNat
  | cs => (readNat? cs).map Int.ofNat

/-- Reads a signed 64-bit integer. A numeral beyond its range is refused. -/
def readInt64? (cs : List Char) : Option Int64 :=
  (readInt? cs).bind fun n =>
    if Int64.minValue.toInt ≤ n ∧ n ≤ Int64.maxValue.toInt then some (Int64.ofInt n) else none

/-- Reads an unsigned 64-bit count. It may begin with a plus sign. -/
def readCount? (cs : List Char) : Option Nat :=
  let unsigned := match cs with
    | '+' :: ds => ds
    | ds => ds
  (readNat? unsigned).bind fun n => if n < UInt64.size then some n else none

end Scriptlet.Decimal
