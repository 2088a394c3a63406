import AbiFacts.Decode.Format
import AbiFacts.DocumentNames
import AbiFacts.Profile.Expectations

/-! # Decoding expectations

A table of expectations is read in two passes. The first takes the tail padding and passes over all
other entries; the second decodes these as pins, in document order, a later pin of a fact replacing
an earlier one.
-/
namespace AbiFacts.Decode

variable {ν : Type} [Format ν]

/-- The first pass: the tail padding, if its key occurs, and the other entries. -/
def separate (room : Nat) (tail : Option (Option TailPadding)) :
    List (Entry ν) → Except Failure (Option TailPadding × List (String × ν))
  | [] => .ok (tail.join, [])
  | .cut :: _ => .error .grammar
  | .bare key :: _ =>
    if key = Expectations.Field.tailPadding.documentName ∧ tail.isSome then
      .error (.data (.duplicateField key))
    else .error .grammar
  | .entry key value :: rest =>
    if key = Expectations.Field.tailPadding.documentName then
      if tail.isSome then .error (.data (.duplicateField key))
      else do
        let rule ← optional Format.choice value
        separate room (some rule) rest
    else do
      Format.keep room value
      let (rule, others) ← separate room tail rest
      return (rule, (key, value) :: others)

def pin (expectations : Expectations) (entry : String × ν) : Except Failure Expectations := do
  let property ← named entry.1
  let value ← Format.boolean entry.2
  return expectations.setPin property (some value)

/-- Expectations from the entries of a table whose values may hold this many levels of nesting. -/
def expectationsOfEntries (room : Nat) (entries : List (Entry ν)) :
    Except Failure Expectations := do
  let (rule, others) ← separate room none entries
  others.foldlM pin { tailPadding := rule }

def expectations (room : Nat) (value : ν) : Except Failure Expectations := do
  expectationsOfEntries (room - 1) (← Format.entries .expectations value)

end AbiFacts.Decode
