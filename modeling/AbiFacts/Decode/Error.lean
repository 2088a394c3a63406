import AbiFacts.Documented
import AbiFacts.Text.Quoted

/-! # Errors of decoding

A document that follows the grammar of its format may still not fit the type that is decoded. The
cause is one of a few data errors, and all wording is in `DataError.message`.
-/
namespace AbiFacts.Decode

/-- What stands in a document where something else was wanted. -/
inductive Found where
  | boolean (value : Bool)
  | integer (value : Int)
  | real (text : String)
  | string (text : String)
  | null
  | sequence
  | map
  deriving DecidableEq

def Found.message : Found → String
  | boolean value => "boolean `" ++ toString value ++ "`"
  | integer value => "integer `" ++ toString value ++ "`"
  | real text => "floating point `" ++ text ++ "`"
  | string text => "string " ++ Text.quoted text
  | null => "null"
  | sequence => "sequence"
  | map => "map"

/-- What a place in a document calls for. -/
inductive Wanted where
  | text
  | boolean
  | unit
  | profile
  | snapshot
  | expectations
  deriving DecidableEq

def Wanted.message : Wanted → String
  | text => "a string"
  | boolean => "a boolean"
  | unit => "unit"
  | profile => "struct AbiProfile"
  | snapshot => "struct AbiProperties"
  | expectations => "struct Expectations"

inductive DataError where
  | unknownVariant (name : String) (known : List String)
  | unknownField (name : String) (known : List String)
  | missingField (name : String)
  | duplicateField (name : String)
  | invalidLength (length : Nat) (wanted : Wanted) (size : Nat)
  | invalidType (found : Found) (wanted : Wanted)
  /-- A name may also be written as a table of one entry; this is no such table, nor a string. -/
  | neitherNameNorTable
  | noEntry
  | severalEntries
  /-- The value beside a name in such a table must hold nothing. -/
  | tableNotEmpty
  | arrayNotEmpty
  | notATable (kind : String)
  deriving DecidableEq

private def oneOf (known : List String) : String :=
  "expected one of " ++ String.intercalate ", " (known.map fun name => "`" ++ name ++ "`")

def DataError.message : DataError → String
  | unknownVariant name known => "unknown variant `" ++ name ++ "`, " ++ oneOf known
  | unknownField name known => "unknown field `" ++ name ++ "`, " ++ oneOf known
  | missingField name => "missing field `" ++ name ++ "`"
  | duplicateField name => "duplicate field `" ++ name ++ "`"
  | invalidLength length wanted size =>
    "invalid length " ++ toString length ++ ", expected " ++ wanted.message ++ " with " ++
      toString size ++ " elements"
  | invalidType found wanted =>
    "invalid type: " ++ found.message ++ ", expected " ++ wanted.message
  | neitherNameNorTable => "wanted string or table"
  | noEntry => "wanted exactly 1 element, found 0 elements"
  | severalEntries => "wanted exactly 1 element, more than 1 element"
  | tableNotEmpty => "expected empty table"
  | arrayNotEmpty => "expected empty array"
  | notATable kind => "expected table, found " ++ kind

/-- Why a text has no decoded value: it breaks the grammar, or its data do not fit. -/
inductive Failure where
  | grammar
  | data (error : DataError)
  deriving DecidableEq

def named {α : Type} [Documented α] (text : String) : Except Failure α :=
  match Documented.find? text with
  | some value => .ok value
  | none => .error (.data (.unknownVariant text (Documented.documentNames α)))

end AbiFacts.Decode
