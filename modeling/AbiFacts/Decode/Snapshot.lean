import AbiFacts.Decode.Expectations
import AbiFacts.DocumentNames

/-! # Decoding snapshots

Every field of a snapshot is required, in any order and once; entries under other keys are ignored.
-/
namespace AbiFacts.Decode

variable {ν : Type} [Format ν]

structure SnapshotFields where
  kind : Option Kind := none
  value : Property → Option Bool := fun _ => none
  tailPadding : Option TailPadding := none

namespace SnapshotFields

def has (fields : SnapshotFields) : Snapshot.Field → Bool
  | .kind => fields.kind.isSome
  | .value property => (fields.value property).isSome
  | .tailPadding => fields.tailPadding.isSome

def set (fields : SnapshotFields) (value : ν) : Snapshot.Field → Except Failure SnapshotFields
  | .kind => do return { fields with kind := some (← Format.choice value) }
  | .value property => do
    let met ← Format.boolean value
    return { fields with
      value := fun other => if other = property then some met else fields.value other }
  | .tailPadding => do return { fields with tailPadding := some (← Format.choice value) }

def step (fields : SnapshotFields) : Entry ν → Except Failure SnapshotFields
  | .cut => .error .grammar
  | .bare key =>
    match (Documented.find? key : Option Snapshot.Field) with
    | some field =>
      if fields.has field then .error (.data (.duplicateField key)) else .error .grammar
    | none => .error .grammar
  | .entry key value =>
    match Documented.find? key with
    | some field =>
      if fields.has field then .error (.data (.duplicateField key)) else fields.set value field
    | none => do
      Format.skip value
      return fields

/-- The snapshot, unless a field was not met; the first one in order is named. -/
def finish (fields : SnapshotFields) : Except Failure Snapshot :=
  match (Named.all : List Snapshot.Field).find? fun field => !fields.has field with
  | some field => .error (.data (.missingField field.documentName))
  | none =>
    match fields.kind, fields.tailPadding with
    | some kind, some rule =>
      .ok (.ofValues kind (fun property => (fields.value property).getD false) rule)
    | _, _ => .error .grammar

end SnapshotFields

def snapshotOfEntries (entries : List (Entry ν)) : Except Failure Snapshot := do
  (← entries.foldlM SnapshotFields.step {}).finish

end AbiFacts.Decode
