import AbiFacts.Decode.Error

/-! # Document formats

What the decoding of records needs to know of a document format. The values of a table come as
entries in document order; where a text may break off in the middle, the break is an entry too, so
an earlier misfit is met before it.
-/
namespace AbiFacts.Decode

/-- One step through a table in document order. -/
inductive Entry (ν : Type) where
  | entry (key : String) (value : ν)
  /-- A key after which the text breaks off. -/
  | bare (key : String)
  /-- The text breaks off. -/
  | cut

class Format (ν : Type) where
  text : ν → Except Failure String
  boolean : ν → Except Failure Bool
  /-- A value of a finite type, by its name or as a table of one entry under that name. -/
  choice : {α : Type} → [Documented α] → ν → Except Failure α
  /-- Does the value stand for an absent one? -/
  isNull : ν → Bool
  /-- The entries of a table; any other value is a misfit for what is wanted. -/
  entries : Wanted → ν → Except Failure (List (Entry ν))
  /-- Pass over a value that is decoded later and may hold this many levels of nesting. -/
  keep : Nat → ν → Except Failure Unit
  /-- Pass over a value that is not decoded. -/
  skip : ν → Except Failure Unit

variable {ν : Type} [Format ν]

def optional {α : Type} (decode : ν → Except Failure α) (value : ν) : Except Failure (Option α) :=
  if Format.isNull value then .ok none else some <$> decode value

end AbiFacts.Decode
