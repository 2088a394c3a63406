import AbiFacts.DocumentNames
import AbiFacts.Json.Written
import AbiFacts.Profile.Validation
import AbiFacts.Toml.Written

/-! # Written profiles

The JSON and TOML documents of expectations, snapshots and profiles. Fields come in their fixed
order, pins in the order of the facts, and what is absent is left out.
-/
namespace AbiFacts

namespace Expectations

def toJson (expectations : Expectations) : Json :=
  .object (expectations.entries.map (fun (property, value) =>
      (property.documentName, .boolean value)) ++
    (expectations.tailPadding.map fun rule =>
      (Field.tailPadding.documentName, .string rule.documentName)).toList)

def toTable (expectations : Expectations) : Toml.Table :=
  expectations.entries.map (fun (property, value) => (property.documentName, .boolean value)) ++
    (expectations.tailPadding.map fun rule =>
      (Field.tailPadding.documentName, .string rule.documentName)).toList

def toToml (expectations : Expectations) : String :=
  Toml.Document.write ⟨expectations.toTable, []⟩

end Expectations

namespace Snapshot

def toJson (snapshot : Snapshot) : Json :=
  .object ((Field.kind.documentName, .string snapshot.kind.documentName) ::
    snapshot.entries.map (fun (property, value) =>
      ((Field.value property).documentName, .boolean value)) ++
    [(Field.tailPadding.documentName, .string snapshot.tailPadding.documentName)])

def toTable (snapshot : Snapshot) : Toml.Table :=
  (Field.kind.documentName, .string snapshot.kind.documentName) ::
    snapshot.entries.map (fun (property, value) =>
      ((Field.value property).documentName, .boolean value)) ++
    [(Field.tailPadding.documentName, .string snapshot.tailPadding.documentName)]

def toToml (snapshot : Snapshot) : String :=
  Toml.Document.write ⟨snapshot.toTable, []⟩

end Snapshot

namespace Profile

def toJson (profile : Profile) : Json :=
  .object ([("name", .string profile.name), ("abi", .string profile.abi.documentName)] ++
    (profile.description.map fun text => ("description", .string text)).toList ++
    (profile.expect.map fun expect => ("expect", expect.toJson)).toList)

def toDocument (profile : Profile) : Toml.Document where
  lines := [("name", .string profile.name), ("abi", .string profile.abi.documentName)] ++
    (profile.description.map fun text => ("description", .string text)).toList
  sections := (profile.expect.map fun expect => ("expect", expect.toTable)).toList

def toToml (profile : Profile) : String :=
  profile.toDocument.write

/-- The text of a new profile that pins every fact of a kind, if the name can be a profile name. -/
def template (name : String) (kind : Kind) : Except InvalidName String := do
  checkName name
  return (describing name kind).toToml

end Profile
end AbiFacts
