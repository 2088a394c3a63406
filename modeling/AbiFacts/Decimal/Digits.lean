/-! # Digits

The value of a digit in a base up to sixteen, and of a run of digits.
-/
namespace AbiFacts.Decimal

/-- The value of a digit in this base, letters of both cases counting from ten. -/
def digit? (base : Nat) (c : Char) : Option Nat :=
  let value :=
    if c.isDigit then c.toNat - '0'.toNat
    else if 'a' ≤ c ∧ c ≤ 'f' then c.toNat - 'a'.toNat + 10
    else if 'A' ≤ c ∧ c ≤ 'F' then c.toNat - 'A'.toNat + 10
    else base
  if value < base then some value else none

/-- The number that a run of digits denotes, the leading digit first. -/
def ofDigits (base : Nat) (digits : List Nat) : Nat :=
  digits.foldl (fun value digit => value * base + digit) 0

def digits (n : Nat) : List Nat :=
  (Nat.toDigits 10 n).filterMap (digit? 10)

def takeDigits : List Char → List Nat × List Char
  | [] => ([], [])
  | c :: rest =>
    match digit? 10 c with
    | some value =>
      let (values, rest) := takeDigits rest
      (value :: values, rest)
    | none => ([], c :: rest)

end AbiFacts.Decimal
