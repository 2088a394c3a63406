import AbiFacts.Decimal.Written
import AbiFacts.Decode.Profile
import AbiFacts.Decode.Snapshot
import AbiFacts.Json.Scan

/-! # Decoding JSON

Scans are a document format. Besides objects, records may be written as arrays of their fields in
order.
-/
namespace AbiFacts.Json

open Decode

def maxNesting : Nat := 127

/-- Floats in messages are positional while the leading digit stands for 10⁻⁵ up to 10¹⁵. Larger
exponents carry a plus sign. -/
def floatLayout : Decimal.Layout where
  least := some (-5)
  greatest := some 15
  plus := true
  tie := .even

/-- What a number is in a message. Integers of 64 bits, signed or not, stay integers. A number that
is too large has no value. -/
def Number.found : Number → Except Failure Found
  | .integer negative magnitude =>
    if !negative && magnitude < UInt64.size then .ok (.integer magnitude)
    else if negative && magnitude ≠ 0 && Int64.minValue.toInt ≤ -magnitude then
      .ok (.integer (-magnitude))
    else real ⟨negative, magnitude, [], 0⟩
  | .decimal numeral => real numeral
where
  real (numeral : Decimal) : Except Failure Found :=
    match numeral.scaled with
    | some x => .ok (.real (floatLayout.write x))
    | none => .error .grammar

namespace Scan

def found : Scan → Except Failure Found
  | null => .ok .null
  | boolean value => .ok (.boolean value)
  | number value => value.found
  | string (some text) => .ok (.string text)
  | array _ _ => .ok .sequence
  | object _ _ => .ok .map
  | string none | broken => .error .grammar

def misfit {α : Type} (wanted : Wanted) (scan : Scan) : Except Failure α := do
  .error (.data (.invalidType (← scan.found) wanted))

def text : Scan → Except Failure String
  | string (some text) => .ok text
  | scan => scan.misfit .text

def bool : Scan → Except Failure Bool
  | boolean value => .ok value
  | scan => scan.misfit .boolean

def unit : Scan → Except Failure Unit
  | null => .ok ()
  | scan => scan.misfit .unit

/-- A name of a finite type: a string, or an object with that key and `null`. -/
def choice {α : Type} [Documented α] : Scan → Except Failure α
  | string (some text) => named text
  | object ((some key, value) :: rest) ending => do
    let chosen ← named key
    value.unit
    match rest, ending with
    | [], .closed => return chosen
    | _, _ => .error .grammar
  | object [] (.bare (some key)) => do
    let _ ← (named key : Except Failure α)
    .error .grammar
  | _ => .error .grammar

def isNull : Scan → Bool
  | null => true
  | _ => false

/-- The steps through the entries of an object. A key without a text breaks the grammar. -/
def steps (ending : Ending) : List (Option String × Scan) → List (Entry Scan)
  | [] =>
    match ending with
    | .closed => []
    | .bare (some key) => [.bare key]
    | _ => [.cut]
  | (some key, value) :: rest => .entry key value :: steps ending rest
  | (none, _) :: _ => [.cut]

def entries (wanted : Wanted) : Scan → Except Failure (List (Entry Scan))
  | object entries ending => .ok (steps ending entries)
  | scan => scan.misfit wanted

mutual

/-- Does the value follow the grammar? Strings without a text do. -/
def isWhole : Scan → Bool
  | null | boolean _ | number _ | string _ => true
  | array items closed => closed && areWhole items
  | object entries ending => ending = .closed && entriesAreWhole entries
  | broken => false

def areWhole : List Scan → Bool
  | [] => true
  | item :: items => item.isWhole && areWhole items

def entriesAreWhole : List (Option String × Scan) → Bool
  | [] => true
  | (_, value) :: entries => value.isWhole && entriesAreWhole entries

end

mutual

/-- Can the value be decoded later? Every number and string in it needs a value, and it may hold at
most this many levels of nesting. -/
def isSound (room : Nat) : Scan → Bool
  | null | boolean _ => true
  | number value => value.found.isOk
  | string text => text.isSome
  | array items closed => 0 < room && closed && areSound (room - 1) items
  | object entries ending =>
    0 < room && ending = .closed && entriesAreSound (room - 1) entries
  | broken => false

def areSound (room : Nat) : List Scan → Bool
  | [] => true
  | item :: items => item.isSound room && areSound room items

def entriesAreSound (room : Nat) : List (Option String × Scan) → Bool
  | [] => true
  | (key, value) :: entries => key.isSome && value.isSound room && entriesAreSound room entries

end

instance : Format Scan where
  text := text
  boolean := bool
  choice := choice
  isNull := isNull
  entries := entries
  keep room scan := if scan.isSound room then .ok () else .error .grammar
  skip scan := if scan.isWhole then .ok () else .error .grammar

/-- The next item of an array that must have one here. The record has `size` fields. -/
def required {α : Type} (wanted : Wanted) (size index : Nat) (closed : Bool)
    (decode : Scan → Except Failure α) : List Scan → Except Failure (α × List Scan)
  | [] =>
    if closed then .error (.data (.invalidLength index wanted size)) else .error .grammar
  | item :: rest => do return (← decode item, rest)

/-- The next item of an array that may end here. -/
def trailing {α : Type} (closed : Bool) (decode : Scan → Except Failure α) :
    List Scan → Except Failure (Option α × List Scan)
  | [] => if closed then .ok (none, []) else .error .grammar
  | item :: rest => do return (← optional decode item, rest)

def finished (closed : Bool) (rest : List Scan) : Except Failure Unit :=
  if closed && rest.isEmpty then .ok () else .error .grammar

def profileOfItems (items : List Scan) (closed : Bool) : Except Failure Profile := do
  let (name, items) ← required .profile 4 0 closed text items
  let (abi, items) ← required .profile 4 1 closed choice items
  let (description, items) ← trailing closed text items
  let (expect, items) ← trailing closed (expectations (maxNesting - 1)) items
  finished closed items
  return ⟨name, abi, description, expect⟩

/-- The values of facts from the items of an array, the first one at this index. -/
def valuesOfItems (closed : Bool) (index : Nat) (value : Property → Bool) :
    List Property → List Scan → Except Failure ((Property → Bool) × List Scan)
  | [], items => .ok (value, items)
  | property :: properties, items => do
    let (met, items) ← required .snapshot 10 index closed bool items
    valuesOfItems closed (index + 1) (fun other => if other = property then met else value other)
      properties items

def snapshotOfItems (items : List Scan) (closed : Bool) : Except Failure Snapshot := do
  let (kind, items) ← required .snapshot 10 0 closed choice items
  let (value, items) ← valuesOfItems closed 1 (fun _ => false) Property.list items
  let (rule, items) ← required .snapshot 10 9 closed choice items
  finished closed items
  return .ofValues kind value rule

def profile : Scan → Except Failure Profile
  | array items closed => profileOfItems items closed
  | scan => do profileOfEntries (maxNesting - 1) (← scan.entries .profile)

def snapshot : Scan → Except Failure Snapshot
  | array items closed => snapshotOfItems items closed
  | scan => do snapshotOfEntries (← scan.entries .snapshot)

end Scan

/-- Decode a whole text: a misfit in the value comes before anything that follows the value. -/
def decode {α : Type} (read : Scan → Except Failure α) (text : String) : Except Failure α := do
  let (value, trailing) := scan text
  let decoded ← read value
  if trailing then .error .grammar else return decoded

def kind? : String → Except Failure Kind := decode Scan.choice
def property? : String → Except Failure Property := decode Scan.choice
def tailPadding? : String → Except Failure TailPadding := decode Scan.choice
def snapshot? : String → Except Failure Snapshot := decode Scan.snapshot
def expectations? : String → Except Failure Expectations := decode (expectations maxNesting)
def profile? : String → Except Failure Profile := decode Scan.profile

end AbiFacts.Json
