import AbiFacts.Decimal.Digits

/-! # Decimal numerals and the floats they denote

A numeral has a sign, a whole part, digits after the point and a power of ten. There are two ways to
a binary float: to the nearest one (`nearest`), and by one scaling step from the leading digits that
fit into 64 bits (`scaled`), which can be off in the last place.
-/
namespace AbiFacts

structure Decimal where
  negative : Bool
  whole : Nat
  fraction : List Nat
  exponent : Int
  deriving DecidableEq

namespace Decimal

private def signed (negative : Bool) (x : Float) : Float :=
  if negative then -x else x

/-- The nearest float; magnitudes past the largest one become infinite. -/
def nearest (d : Decimal) : Float :=
  let mantissa := ofDigits 10 (digits d.whole ++ d.fraction)
  let exponent := d.exponent - d.fraction.length
  let leading := exponent + (Nat.toDigits 10 mantissa).length
  signed d.negative <|
    if mantissa = 0 ∨ leading < -400 then 0
    else if leading > 400 then 1 / 0
    else Float.ofScientific mantissa (exponent < 0) exponent.natAbs

/-- Take digits into a 64-bit significand until one does not fit. The second part counts the digits
left over. -/
def absorb (significand : Nat) : List Nat → Nat × Nat
  | [] => (significand, 0)
  | digit :: rest =>
    if significand * 10 + digit < UInt64.size then absorb (significand * 10 + digit) rest
    else (significand, rest.length + 1)

/-- Scale by a power of ten in steps of at most 308 places. There is no result once a product is
infinite. -/
private def scale (x : Float) (exponent : Int) : Nat → Option Float
  | 0 => some x
  | steps + 1 =>
    if exponent.natAbs ≤ 308 then
      let power := Float.ofScientific 1 false exponent.natAbs
      if exponent < 0 then some (x / power)
      else if (x * power).isInf then none else some (x * power)
    else if x == 0 then some x
    else if exponent < 0 then scale (x / 1e308) (exponent + 308) steps
    else none

/-- The float that one scaling step makes of the leading digits, unless it is too large. -/
def scaled (d : Decimal) : Option Float :=
  let (leading, dropped) := absorb 0 (digits d.whole)
  let (significand, unread) := absorb leading d.fraction
  let places : Int := dropped - (d.fraction.length - unread : Nat)
  (scale significand.toUInt64.toFloat (d.exponent + places) 5).map (signed d.negative)

end Decimal
end AbiFacts
