import AbiFacts.Decode.Expectations
import AbiFacts.Profile.Basic

/-! # Decoding profiles

The fields of a profile may come in any order, each at most once, and no other entry is accepted.
-/
namespace AbiFacts

inductive Profile.Field where
  | name
  | abi
  | description
  | expect
  deriving DecidableEq

instance Profile.Field.instNamed : Named Profile.Field where
  all := [.name, .abi, .description, .expect]
  name
    | .name => "name"
    | .abi => "abi"
    | .description => "description"
    | .expect => "expect"
  mem_all := by intro a; cases a <;> decide
  nodup_all := by decide
  name_injective := by intro a b; cases a <;> cases b <;> decide

namespace Decode

variable {ν : Type} [Format ν]

structure ProfileFields where
  name : Option String := none
  abi : Option Kind := none
  description : Option (Option String) := none
  expect : Option (Option Expectations) := none

namespace ProfileFields

def has (fields : ProfileFields) : Profile.Field → Bool
  | .name => fields.name.isSome
  | .abi => fields.abi.isSome
  | .description => fields.description.isSome
  | .expect => fields.expect.isSome

/-- The field with this key, if there is one and it is new. -/
def fieldFor (fields : ProfileFields) (key : String) : Except Failure Profile.Field :=
  match Named.find? key with
  | none => .error (.data (.unknownField key (Named.names Profile.Field)))
  | some field =>
    if fields.has field then .error (.data (.duplicateField key)) else .ok field

/-- Decode a field, in a document that allows this many levels of nesting. -/
def set (room : Nat) (fields : ProfileFields) (value : ν) :
    Profile.Field → Except Failure ProfileFields
  | .name => do return { fields with name := some (← Format.text value) }
  | .abi => do return { fields with abi := some (← Format.choice value) }
  | .description => do
    return { fields with description := some (← optional Format.text value) }
  | .expect => do
    return { fields with expect := some (← optional (expectations room) value) }

def step (room : Nat) (fields : ProfileFields) : Entry ν → Except Failure ProfileFields
  | .cut => .error .grammar
  | .bare key => do
    let _ ← fields.fieldFor key
    .error .grammar
  | .entry key value => do
    let field ← fields.fieldFor key
    fields.set room value field

def finish (fields : ProfileFields) : Except Failure Profile :=
  match fields.name, fields.abi with
  | none, _ => .error (.data (.missingField (Named.name Profile.Field.name)))
  | _, none => .error (.data (.missingField (Named.name Profile.Field.abi)))
  | some name, some abi => .ok ⟨name, abi, fields.description.join, fields.expect.join⟩

end ProfileFields

def profileOfEntries (room : Nat) (entries : List (Entry ν)) : Except Failure Profile := do
  (← entries.foldlM (ProfileFields.step room) {}).finish

end Decode
end AbiFacts
