-- SUMMARY: The shortest decimal that denotes a binary64 value.
import Scriptlet.Decimal.Binary

/-!
# Shortest decimals

Of all decimals that round to a value, the one with the fewest digits is chosen,
and of two with equally few the one closer to the value. The search tries one
digit, two digits and so on. On each grid only the two neighbours of the value
can be the closest, so only these are tested.
-/
namespace Scriptlet

/-- The digits that two binary64 values need at most to be told apart. -/
def Decimal.maxDigits : Nat := 17

/-- Moves trailing zeros of the coefficient into the exponent, at most `n` of them. -/
def Decimal.stripped (d : Decimal) : Nat → Decimal
  | 0 => d
  | n + 1 =>
    if d.coefficient % 10 = 0 then Decimal.stripped ⟨d.coefficient / 10, d.exponent + 1⟩ n else d

namespace Binary

/-- The multiple of `10 ^ i` closest to the value among those that round to it.
If two are equally close, it is the larger one. -/
def closestOn? (x : Binary) (i : Int) : Option Decimal :=
  let below : Decimal := ⟨x.wholeUnits i, i⟩
  let above : Decimal := ⟨x.wholeUnits i + 1, i⟩
  match x.isDenotedBy below, x.isDenotedBy above with
  | true, true =>
    match compareScaled (2 * below.coefficient + 1) i x.significand (x.exponent + 1) with
    | .gt => some below
    | _ => some above
  | true, false => some below
  | false, true => some above
  | false, false => none

/-- The exact value as a decimal, which has many digits as a rule. -/
def exactDecimal (x : Binary) : Decimal :=
  ⟨x.significand * .pow 2 x.exponent.toNat * .pow 5 (-x.exponent).toNat, min x.exponent 0⟩

/-- The shortest decimal that rounds to the value, for a value other than zero. -/
def shortest (x : Binary) : Decimal :=
  let k := x.magnitude
  let found := (List.range Decimal.maxDigits).findSome? fun n => x.closestOn? (k - (n + 1 : Nat))
  (found.getD x.exactDecimal).stripped Decimal.maxDigits

end Binary

end Scriptlet
