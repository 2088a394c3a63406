import AbiFacts.Decimal.Basic

/-! # JSON values

Objects keep their entries in order and may repeat a key. Numbers keep what was written.
-/
namespace AbiFacts

/-- A number as written: an integer, or a numeral with a point or an exponent. Minus zero is an
integer of its own. -/
inductive Json.Number where
  | integer (negative : Bool) (magnitude : Nat)
  | decimal (numeral : Decimal)
  deriving DecidableEq

inductive Json where
  | null
  | boolean (value : Bool)
  | number (value : Json.Number)
  | string (text : String)
  | array (items : List Json)
  | object (entries : List (String × Json))

def Json.Number.ofInt (n : Int) : Json.Number :=
  .integer (n < 0) n.natAbs

end AbiFacts
