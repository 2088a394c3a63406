import AbiFacts.Profile.Expectations

/-! # Profiles

A profile names a selected ABI kind and may pin facts of it. Pins that disagree with the kind are
its mismatches.
-/
namespace AbiFacts

structure Profile where
  name : String
  abi : Kind
  description : Option String := none
  expect : Option Expectations := none
  deriving DecidableEq

inductive Mismatch where
  | property (property : Property) (expected actual : Bool)
  | tailPadding (expected actual : TailPadding)
  deriving DecidableEq

namespace Mismatch

def key : Mismatch → String
  | property p _ _ => p.key
  | tailPadding _ _ => "tail-padding"

def expected : Mismatch → String
  | property _ value _ => toString value
  | tailPadding rule _ => rule.name

def actual : Mismatch → String
  | property _ _ value => toString value
  | tailPadding _ rule => rule.name

end Mismatch

namespace Profile

def descriptor (profile : Profile) : Descriptor := ⟨profile.abi⟩

/-- The pins that disagree with the ABI, in the order of the facts and tail padding last. -/
def mismatches (profile : Profile) : List Mismatch :=
  match profile.expect with
  | none => []
  | some expect =>
    let abi := profile.descriptor
    let properties := expect.entries.filterMap fun (property, expected) =>
      if property.eval abi = expected then none
      else some (.property property expected (property.eval abi))
    let rule := expect.tailPadding.bind fun expected =>
      if abi.tailPadding = expected then none
      else some (.tailPadding expected abi.tailPadding)
    properties ++ rule.toList

/-- A profile that describes a kind by its summary and pins every fact of it. -/
def describing (name : String) (kind : Kind) : Profile where
  name := name
  abi := kind
  description := some kind.summary
  expect := some (.pinAll ⟨kind⟩)

end Profile
end AbiFacts
