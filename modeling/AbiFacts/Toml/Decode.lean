import AbiFacts.Decimal.Written
import AbiFacts.Decode.Profile
import AbiFacts.Decode.Snapshot
import AbiFacts.Toml.Document

/-! # Decoding TOML

Values of a finished document are a document format. Grammar comes first: a text is decoded only
when all of it has been read.
-/
namespace AbiFacts.Toml

open Decode

/-- Floats in messages are positional, whatever their exponent. -/
def floatLayout : Decimal.Layout where
  least := none
  greatest := none
  plus := false
  tie := .away

def FloatLiteral.written : FloatLiteral → String
  | decimal numeral => floatLayout.write numeral.nearest
  | infinity negative => if negative then "-inf" else "inf"
  | nan => "NaN"

namespace Value

/-- What a value is in a message. Dates and times pass for tables. -/
def found : Value → Found
  | string text => .string text
  | integer value => .integer value
  | float value => .real value.written
  | boolean value => .boolean value
  | array _ | tables _ => .sequence
  | datetime _ | table _ => .map

def misfit {α : Type} (wanted : Wanted) (value : Value) : Except Failure α :=
  .error (.data (.invalidType value.found wanted))

def text : Value → Except Failure String
  | string text => .ok text
  | value => value.misfit .text

def bool : Value → Except Failure Bool
  | boolean value => .ok value
  | value => value.misfit .boolean

/-- The value beside a name must be a table or an array that holds nothing. -/
def holdsNothing : Value → Except Failure Unit
  | table [] | array [] | tables [] => .ok ()
  | table _ | array _ => .error (.data .tableNotEmpty)
  | tables _ => .error (.data .arrayNotEmpty)
  | string _ => .error (.data (.notATable "string"))
  | integer _ => .error (.data (.notATable "integer"))
  | float _ => .error (.data (.notATable "float"))
  | boolean _ => .error (.data (.notATable "boolean"))
  | datetime _ => .error (.data (.notATable "datetime"))

/-- A name of a finite type: a string, or a table with that key alone. -/
def choice {α : Type} [Documented α] : Value → Except Failure α
  | string text => named text
  | table [] => .error (.data .noEntry)
  | table [(key, value)] => do
    let chosen ← named key
    value.holdsNothing
    return chosen
  | table _ => .error (.data .severalEntries)
  | _ => .error (.data .neitherNameNorTable)

/-- The key of the one entry that a date or time has when it passes for a table. -/
def datetimeKey : String := "$__toml_private_datetime"

def entries (wanted : Wanted) : Value → Except Failure (List (Entry Value))
  | table entries => .ok (entries.map fun (key, value) => .entry key value)
  | datetime text => .ok [.entry datetimeKey (.string text)]
  | value => value.misfit wanted

instance : Format Value where
  text := text
  boolean := bool
  choice := choice
  isNull _ := false
  entries := entries
  keep _ _ := .ok ()
  skip _ := .ok ()

end Value

def decode {α : Type} (read : List (Entry Value) → Except Failure α) (text : String) :
    Except Failure α :=
  match read? text with
  | some table => read (table.map fun (key, value) => .entry key value)
  | none => .error .grammar

/-- Nesting is limited by the grammar alone, so decoding gets as much room as it may want. -/
def room : Nat := limit + 1

def snapshot? : String → Except Failure Snapshot := decode snapshotOfEntries
def expectations? : String → Except Failure Expectations := decode (expectationsOfEntries room)
def profile? : String → Except Failure Profile := decode (profileOfEntries room)

end AbiFacts.Toml
