import AbiFacts.Profile.Basic
import AbiFacts.Text.Blank

/-! # Validation of profiles

A profile name becomes the stem of a file, so it must be a plain file name. A valid profile has such
a name, no mismatches, and no table of expectations that pins nothing.
-/
namespace AbiFacts

inductive NameProblem where
  | empty
  | notPlain
  | hidden
  deriving DecidableEq

def NameProblem.message (name : String) : NameProblem → String
  | empty => "profile name is empty"
  | notPlain => "profile name '" ++ name ++ "' contains whitespace or a path separator"
  | hidden => "profile name '" ++ name ++ "' starts with '.'"

def nameProblem? (name : String) : Option NameProblem :=
  if (Text.trim name.toList).isEmpty then some .empty
  else if name.toList.any fun c => Text.isBlank c || c == '/' || c == '\\' then some .notPlain
  else if name.toList.head? = some '.' then some .hidden
  else none

structure InvalidName where
  name : String
  problem : NameProblem
  deriving DecidableEq

namespace InvalidName

def reason (invalid : InvalidName) : String :=
  invalid.problem.message invalid.name

def message (invalid : InvalidName) : String :=
  "invalid profile name '" ++ invalid.name ++ "': " ++ invalid.reason

end InvalidName

def checkName (name : String) : Except InvalidName Unit :=
  match nameProblem? name with
  | some problem => .error ⟨name, problem⟩
  | none => .ok ()

inductive Severity where
  | error
  | warning
  deriving DecidableEq

def Severity.name : Severity → String
  | error => "error"
  | warning => "warning"

inductive Issue where
  | name (name : String) (problem : NameProblem)
  | mismatch (abi : Kind) (mismatch : Mismatch)
  | nothingPinned
  deriving DecidableEq

namespace Issue

/-- Only a table of expectations that pins nothing leaves a profile usable. -/
def severity : Issue → Severity
  | name _ _ | mismatch _ _ => .error
  | nothingPinned => .warning

def message : Issue → String
  | name text problem => problem.message text
  | mismatch abi m =>
    "expected " ++ m.key ++ " = " ++ m.expected ++ " but ABI '" ++ abi.name ++ "' has " ++ m.actual
  | nothingPinned => "[expect] table is present but pins no facts"

end Issue

/-- Everything that is wrong with a profile: its name, then each mismatch, then a table of
expectations without pins. -/
def Profile.issues (profile : Profile) : List Issue :=
  ((nameProblem? profile.name).map (Issue.name profile.name)).toList ++
    profile.mismatches.map (Issue.mismatch profile.abi) ++
    (if profile.expect.any Expectations.isEmpty then [.nothingPinned] else [])

end AbiFacts
