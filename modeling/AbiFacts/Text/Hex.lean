import AbiFacts.Decimal.Digits

/-! # Characters by number

Fixed-width hexadecimal numbers in escapes, read and written.
-/
namespace AbiFacts.Text

/-- The number in exactly `count` hexadecimal digits at the front of a text. -/
def hex? (count : Nat) (text : List Char) : Option (Nat × List Char) :=
  let digits := (text.take count).filterMap (Decimal.digit? 16)
  if digits.length = count then some (Decimal.ofDigits 16 digits, text.drop count) else none

/-- The character with this number, if it is one: surrogates and numbers above U+10FFFF are not. -/
def scalar? (n : Nat) : Option Char :=
  if n.isValidChar then some (Char.ofNat n) else none

/-- The low four hexadecimal digits of a number; `digit` writes one of them. -/
def hex4 (digit : Nat → Char) (n : Nat) : List Char :=
  [digit (n / 4096 % 16), digit (n / 256 % 16), digit (n / 16 % 16), digit (n % 16)]

def upperDigit (n : Nat) : Char :=
  if n < 10 then Char.ofNat ('0'.toNat + n) else Char.ofNat ('A'.toNat + (n - 10))

def lowerDigit (n : Nat) : Char :=
  if n < 10 then Char.ofNat ('0'.toNat + n) else Char.ofNat ('a'.toNat + (n - 10))

end AbiFacts.Text
