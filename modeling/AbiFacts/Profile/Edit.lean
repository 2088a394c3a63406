import AbiFacts.Lookup
import AbiFacts.Profile.Written
import AbiFacts.Toml.Decode

/-! # Editing profiles

Single changes to a profile. A change that fails leaves the profile as it was.
-/
namespace AbiFacts

/-- A change to a profile. Kinds and facts are given by name. -/
inductive Profile.Edit where
  | name (name : String)
  | abi (kind : String)
  | description (text : Option String)
  /-- Pin every fact of the current ABI. -/
  | pinAll
  /-- Drop the table of expectations. -/
  | clear
  /-- Start an empty table of expectations. -/
  | empty
  | pin (property : String) (value : Bool)
  | unpin (property : String)
  | tailPadding (rule : Option TailPadding)
  /-- Write the profile and read it back. -/
  | reparse

inductive Profile.EditError where
  | unknown (error : NameError)
  | unreadable (failure : Decode.Failure)

namespace Profile

/-- Change the expectations, starting from an empty table if there is none. -/
def expecting (change : Expectations → Expectations) (profile : Profile) : Profile :=
  { profile with expect := some (change (profile.expect.getD {})) }

private def lookedUp {α : Type} : Except NameError α → Except EditError α
  | .ok value => .ok value
  | .error e => .error (.unknown e)

def apply (profile : Profile) : Edit → Except EditError Profile
  | .name name => .ok { profile with name }
  | .abi kind => do return { profile with abi := ← lookedUp (Kind.ofText kind) }
  | .description text => .ok { profile with description := text }
  | .pinAll => .ok { profile with expect := some (.pinAll profile.descriptor) }
  | .clear => .ok { profile with expect := none }
  | .empty => .ok { profile with expect := some {} }
  | .pin property value => do
    let property ← lookedUp (Property.ofText property)
    return profile.expecting (Expectations.setPin property (some value))
  | .unpin property => do
    let property ← lookedUp (Property.ofText property)
    return { profile with expect := profile.expect.map (Expectations.setPin property none) }
  | .tailPadding rule => .ok (profile.expecting fun e => { e with tailPadding := rule })
  | .reparse =>
    match Toml.profile? profile.toToml with
    | .ok profile => .ok profile
    | .error e => .error (.unreadable e)

/-- The profile after a change, whether or not it succeeds. -/
def applied (profile : Profile) (edit : Edit) : Profile :=
  match profile.apply edit with
  | .ok profile => profile
  | .error _ => profile

/-- What each change of a sequence leads to, failed ones leaving the profile as it was. -/
def run (profile : Profile) : List Edit → List (Except EditError Profile)
  | [] => []
  | edit :: edits => profile.apply edit :: (profile.applied edit).run edits

end Profile
end AbiFacts
