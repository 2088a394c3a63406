/-! # The shortest decimal of a float

The fewest significant digits that read back as the same float, and among those the nearest. A float
`m · 2^q` is read back from every decimal in the interval between the midpoints to its neighbours,
whose ends count when `m` is even. On the grid of each digit count only the two points next to the
value matter, so the first grid with a hit gives the answer.
-/
namespace AbiFacts.Decimal

inductive Tie where
  /-- The one with the even last digit. -/
  | even
  /-- The one farther from zero. -/
  | away
  deriving DecidableEq

def Tie.choose (low : Nat) : Tie → Nat
  | even => low + low % 2
  | away => low + 1

/-- A positive float as `mantissa · 2^exponent`; `lowest` when the neighbour below is nearer than
the one above, at a power of two. -/
structure Binary where
  mantissa : Nat
  exponent : Int
  lowest : Bool

/-- Two to the 52nd: the mantissas of one exponent, the leading bit aside. -/
def mantissas : Nat := 0x10000000000000

def Binary.ofFloat (x : Float) : Binary :=
  let bits := x.toBits.toNat
  let fraction : Nat := bits % mantissas
  let biased : Nat := bits / mantissas % 2048
  if biased = 0 then ⟨fraction, -1074, false⟩
  else ⟨mantissas + fraction, (biased : Int) - 1075, fraction = 0 ∧ biased > 1⟩

/-- A power of ten, or one where the exponent is negative. -/
def tens (exponent : Int) : Nat := Nat.pow 10 exponent.toNat

def twos (exponent : Int) : Nat := Nat.pow 2 exponent.toNat

/-- Compare `a · 10^g` with `b · 2^q`. -/
def comparePowers (a : Nat) (g : Int) (b : Nat) (q : Int) : Ordering :=
  compare (a * tens g * twos (-q)) (b * twos q * tens (-g))

namespace Binary

/-- Does `digits · 10^g` read back as this float? Distances are taken in quarters of the last
place. -/
def holds (x : Binary) (digits : Nat) (g : Int) : Bool :=
  let even := x.mantissa % 2 = 0
  let below := comparePowers digits g (4 * x.mantissa - if x.lowest then 1 else 2) (x.exponent - 2)
  let above := comparePowers digits g (4 * x.mantissa + 2) (x.exponent - 2)
  (below == .gt || (even && below == .eq)) && (above == .lt || (even && above == .eq))

/-- The power of ten just above the value: `10^(k-1) ≤ value < 10^k`. -/
def decade (x : Binary) : Int :=
  let num := x.mantissa * twos x.exponent
  let den := twos (-x.exponent)
  if den ≤ num then (Nat.toDigits 10 (num / den)).length
  else 1 - ((Nat.toDigits 10 ((den - 1) / num)).length : Int)

def floorOn (x : Binary) (g : Int) : Nat :=
  (x.mantissa * twos x.exponent * tens (-g)) / (twos (-x.exponent) * tens g)

/-- The point of the grid `10^g` next to the value that reads back, the nearer one of two. -/
def onGrid (tie : Tie) (x : Binary) (g : Int) : Option Nat :=
  let low := x.floorOn g
  match x.holds low g, x.holds (low + 1) g with
  | true, false => some low
  | false, true => some (low + 1)
  | false, false => none
  | true, true =>
    match comparePowers (2 * low + 1) g (2 * x.mantissa) x.exponent with
    | .gt => some low
    | .lt => some (low + 1)
    | .eq => some (tie.choose low)

/-- Search the grids from the coarsest on, for at most this many more digits. -/
def search (tie : Tie) (x : Binary) (g : Int) : Nat → Nat × Int
  | 0 => (x.floorOn g, g)
  | more + 1 =>
    match x.onGrid tie g with
    | some digits => (digits, g)
    | none => x.search tie (g - 1) more

end Binary

/-- Zeros at the end of the digits go into the exponent. -/
def normalize (digits : Nat) (exponent : Int) : Nat → Nat × Int
  | 0 => (digits, exponent)
  | fuel + 1 =>
    if digits % 10 = 0 ∧ digits ≠ 0 then normalize (digits / 10) (exponent + 1) fuel
    else (digits, exponent)

/-- The shortest digits of a finite float and the power of ten of the last one, the sign aside. -/
def shortest (tie : Tie) (x : Float) : Nat × Int :=
  let binary := Binary.ofFloat x
  if binary.mantissa = 0 then (0, 0)
  else
    let (digits, exponent) := binary.search tie (binary.decade - 1) 17
    normalize digits exponent 20

end AbiFacts.Decimal
