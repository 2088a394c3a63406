import AbiFacts.Decimal.Shortest

/-! # The written form of a float

Shortest digits, laid out positionally for exponents within a range and in scientific form outside
it. Whole values keep one zero after the point in positional form.
-/
namespace AbiFacts.Decimal

structure Layout where
  /-- The least exponent of the leading digit that is written positionally, if there is one. -/
  least : Option Int
  /-- The greatest exponent of the leading digit that is written positionally, if there is one. -/
  greatest : Option Int
  /-- Does a positive exponent carry a plus sign? -/
  plus : Bool
  tie : Tie

namespace Layout

def isPositional (layout : Layout) (leading : Int) : Bool :=
  layout.least.all (· ≤ leading) && layout.greatest.all (leading ≤ ·)

def positional (digits : List Char) (exponent : Int) : List Char :=
  let point := digits.length + exponent
  if 0 ≤ exponent then digits ++ List.replicate exponent.toNat '0' ++ ['.', '0']
  else if 0 < point then digits.take point.toNat ++ '.' :: digits.drop point.toNat
  else '0' :: '.' :: (List.replicate (-point).toNat '0' ++ digits)

def scientific (layout : Layout) (digits : List Char) (leading : Int) : List Char :=
  let sign := if layout.plus && 0 ≤ leading then ['+'] else []
  let mark := 'e' :: (sign ++ (toString leading).toList)
  match digits with
  | [] => mark
  | [digit] => digit :: mark
  | digit :: rest => digit :: '.' :: (rest ++ mark)

def write (layout : Layout) (x : Float) : String :=
  let sign := if x.toBits ≥ 0x8000000000000000 then "-" else ""
  if x.isNaN then "NaN"
  else if x.isInf then sign ++ "inf"
  else
    let (significand, exponent) := shortest layout.tie x
    let digits := Nat.toDigits 10 significand
    let leading := digits.length + exponent - 1
    sign ++ String.ofList
      (if layout.isPositional leading then positional digits exponent
        else layout.scientific digits leading)

end Layout
end AbiFacts.Decimal
