import AbiFacts.Decimal.Basic

/-! # TOML values

A table keeps its entries in the order in which their keys first appear. An array that is built from
repeated headers is told from an array that is written in brackets.
-/
namespace AbiFacts.Toml

inductive FloatLiteral where
  | decimal (numeral : Decimal)
  | infinity (negative : Bool)
  | nan
  deriving DecidableEq

inductive Value where
  | string (text : String)
  | integer (value : Int)
  | float (value : FloatLiteral)
  | boolean (value : Bool)
  /-- A date, a time or both, as written. -/
  | datetime (text : String)
  | array (items : List Value)
  | table (entries : List (String × Value))
  | tables (items : List (List (String × Value)))

abbrev Table := List (String × Value)

end AbiFacts.Toml
