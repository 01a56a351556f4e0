-- SUMMARY: Finite binary64 values as exact fractions, and the decimals that round to them.

/-!
# Binary values and the decimals that denote them

A finite binary64 value is `significand * 2 ^ exponent`, exactly. The real
numbers that round to it, to nearest with ties to even, form an interval; a
decimal denotes the value if it lies in that interval. Comparisons multiply out
both sides, so that every step is exact arithmetic on natural numbers.
-/
namespace Scriptlet

/-- The decimal number `coefficient * 10 ^ exponent`. -/
structure Decimal where
  coefficient : Nat
  exponent : Int
  deriving Repr, DecidableEq

/-- The magnitude `significand * 2 ^ exponent` of a finite binary64 value. -/
structure Binary where
  significand : Nat
  exponent : Int
  /-- The gap to the value below is half the gap to the value above, as it is at a power of two. -/
  narrowBelow : Bool
  deriving Repr, DecidableEq

namespace Binary

/-- The magnitude that the bits of a finite value encode. -/
def ofBits (bits : UInt64) : Binary :=
  let exponent := ((bits >>> 52) &&& 0x7FF).toNat
  let fraction := (bits &&& 0xFFFFFFFFFFFFF).toNat
  if exponent = 0 then ⟨fraction, -1074, false⟩
  else ⟨Nat.pow 2 52 + fraction, (exponent : Int) - 1075, fraction = 0 ∧ 1 < exponent⟩

/-- Compares `n * 10 ^ i` with `m * 2 ^ j`, multiplied out to natural numbers. -/
def compareScaled (n : Nat) (i : Int) (m : Nat) (j : Int) : Ordering :=
  compare (n * .pow 10 i.toNat * .pow 2 (-j).toNat) (m * .pow 2 j.toNat * .pow 10 (-i).toNat)

/-- Does the decimal round to this value? The ends of the interval lie halfway to
the neighbouring values, and they belong to it if the significand is even. -/
def isDenotedBy (x : Binary) (d : Decimal) : Bool :=
  let low := if x.narrowBelow then 4 * x.significand - 1 else 4 * x.significand - 2
  let high := 4 * x.significand + 2
  let closed := x.significand % 2 = 0
  let aboveLow := match compareScaled d.coefficient d.exponent low (x.exponent - 2) with
    | .gt => true
    | .eq => closed
    | .lt => false
  let belowHigh := match compareScaled d.coefficient d.exponent high (x.exponent - 2) with
    | .lt => true
    | .eq => closed
    | .gt => false
  aboveLow && belowHigh

/-- The integral part of the value divided by `10 ^ i`. -/
def wholeUnits (x : Binary) (i : Int) : Nat :=
  (x.significand * .pow 2 x.exponent.toNat * .pow 10 (-i).toNat) /
    (.pow 2 (-x.exponent).toNat * .pow 10 i.toNat)

/-- The least `k` with the value below `10 ^ k`, for a value other than zero. The
binary logarithm bounds it from below, and two steps up suffice. -/
def magnitude (x : Binary) : Int :=
  let k := ((x.exponent + x.significand.log2) * 30103).fdiv 100000
  if compareScaled 1 k x.significand x.exponent = .gt then k
  else if compareScaled 1 (k + 1) x.significand x.exponent = .gt then k + 1
  else k + 2

end Binary

end Scriptlet
