-- SUMMARY: The text of a binary64 value: positional or with an exponent, always recognisable as a float.
import Scriptlet.Decimal.Shortest

/-!
# Layout of floating-point values

A float is written with its shortest digits. Values from `10 ^ -4` up to, and
not including, `10 ^ 16` are positional with at least one digit after the point;
the others have an exponent, without a plus sign and without a forced fraction.
Zero keeps its sign. NaN and the infinities have names.
-/
namespace Scriptlet

namespace Decimal

/-- The least exponent of the leading digit that is written positionally. -/
def plainFrom : Int := -4

/-- The least exponent of the leading digit above those written positionally. -/
def plainBelow : Int := 16

/-- The digits around a point that stands after the first `point` of them. -/
def positional (digits : List Char) (point : Int) : List Char :=
  if point ≤ 0 then '0' :: '.' :: (List.replicate (-point).toNat '0' ++ digits)
  else if digits.length ≤ point then
    digits ++ List.replicate (point.toNat - digits.length) '0' ++ ['.', '0']
  else digits.take point.toNat ++ '.' :: digits.drop point.toNat

/-- The digits with a point after the first one, if there are more, and an exponent. -/
def scientific (digits : List Char) (exponent : Int) : List Char :=
  let mantissa := match digits with
    | [] => []
    | [d] => [d]
    | d :: ds => d :: '.' :: ds
  mantissa ++ 'e' :: (toString exponent).toList

/-- The text of a decimal other than zero, without trailing zeros in its coefficient. -/
def text (d : Decimal) : String :=
  let digits := Nat.toDigits 10 d.coefficient
  let point := d.exponent + digits.length
  let leading := point - 1
  String.ofList <|
    if plainFrom ≤ leading ∧ leading < plainBelow then positional digits point
    else scientific digits leading

end Decimal

/-- The text of a floating-point value. -/
def floatText (x : Float) : String :=
  if x.isNaN then "NaN"
  else
    let sign := if x.toBits >>> 63 = 0 then "" else "-"
    let magnitude := Binary.ofBits x.toBits
    if x.isInf then sign ++ "inf"
    else if magnitude.significand = 0 then sign ++ "0.0"
    else sign ++ magnitude.shortest.text

end Scriptlet
