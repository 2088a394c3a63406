import AbiFacts.Files.Access
import AbiFacts.Log
import AbiFacts.Profile.Written
import AbiFacts.Toml.Decode

/-! # Profile files

Profiles are TOML files whose names end in `.abi.toml`. They are loaded from any path, and
discovered in the directory `abi` of a project.
-/
namespace AbiFacts.Profile

open Files

def fileSuffix : String := ".abi.toml"

def fileName (name : String) : String := name ++ fileSuffix

def stem? (fileName : String) : Option String :=
  let chars := fileName.toList
  let stem := chars.take (chars.length - fileSuffix.length)
  if chars.drop (chars.length - fileSuffix.length) = fileSuffix.toList then
    some (String.ofList stem)
  else none

inductive ReadError where
  | system (error : SystemError)
  | notText
  deriving DecidableEq

def ReadError.message : ReadError → String
  | system e => e.message
  | notText => "stream did not contain valid UTF-8"

inductive LoadError where
  | notFound (path : Path)
  | unreadable (error : ReadError)
  | invalid (failure : Decode.Failure)
  deriving DecidableEq

def failureMessage : Decode.Failure → String
  | .grammar => "<toml syntax error>"
  | .data e => e.message

namespace LoadError

def message : LoadError → String
  | notFound path => "profile file not found: " ++ path.shown
  | unreadable e => "I/O error: " ++ e.message
  | invalid failure => "TOML parse error: " ++ failureMessage failure

def cause? : LoadError → Option String
  | notFound _ => none
  | unreadable e => some e.message
  | invalid failure => some (failureMessage failure)

end LoadError

def ofBytes (content : List UInt8) : Except LoadError Profile :=
  match Text.ofBytes? content with
  | none => .error (.unreadable .notText)
  | some text =>
    match Toml.profile? text with
    | .ok profile => .ok profile
    | .error failure => .error (.invalid failure)

section
variable {m : Type → Type} [Monad m] [FileAccess m]

/-- Load a profile. A path that leads nowhere is not tried. -/
def load (path : Path) : m (List LogRecord × Except LoadError Profile) := do
  if ← FileAccess.pathExists path then
    let record : LogRecord := ⟨.debug, "loading ABI profile", [("path", path.shown)]⟩
    match ← FileAccess.read path with
    | .error e => return ([record], .error (.unreadable (.system e)))
    | .ok content => return ([record], ofBytes content)
  else return ([], .error (.notFound path))

/-- The profile file that an entry of a directory is, if it is one, by stem and path. -/
def discovered (directory : Path) (entry : DirectoryEntry) :
    List LogRecord × Option (String × Path) :=
  let path := directory.join ⟨entry.name⟩
  if !entry.isFile then ([], none)
  else
    match entry.name.text? with
    | none => ([⟨.warn, "skipping non-UTF-8 file name", [("path", path.shown)]⟩], none)
    | some name =>
      match stem? name with
      | none => ([], none)
      | some "" => ([⟨.warn, "skipping profile file with no name", [("path", path.shown)]⟩], none)
      | some stem => ([], some (stem, path))

def directoryOf (project : Path) : Path :=
  project.join (.ofString "abi")

/-- The profile files of a project, by stem and path, ordered by stem. -/
def discover (project : Path) :
    m (List LogRecord × Except SystemError (List (String × Path))) := do
  let directory := directoryOf project
  if ← FileAccess.isDirectory directory then
    match ← FileAccess.list directory with
    | .error e => return ([], .error e)
    | .ok entries =>
      let found := entries.map (discovered directory)
      let profiles := (found.filterMap (·.2)).mergeSort fun a b => a.1 ≤ b.1
      return (found.flatMap (·.1) ++
        [⟨.debug, "discovered ABI profiles", [("count", toString profiles.length)]⟩],
        .ok profiles)
  else return ([⟨.debug, "no abi directory", [("dir", directory.shown)]⟩], .ok [])

end
end AbiFacts.Profile
