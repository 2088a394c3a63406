import AbiFacts.CommandLine.Invocation
import AbiFacts.CommandLine.Report

/-! # Running commands

The five commands, over any access to files. Only `new` writes, and only where nothing is yet.
-/
namespace AbiFacts.CommandLine

open Files Profile

/-- The text with blanks after it, up to a width in characters. -/
def padded (width : Nat) (text : String) : String :=
  text ++ String.ofList (List.replicate (width - text.length) ' ')

def row (width : Nat) (left right : String) : String :=
  "  " ++ padded width left ++ " " ++ right ++ "\n"

def kindList : String :=
  "Known C++ ABIs:\n\n" ++
    String.join (Kind.list.map fun kind => row 18 kind.name kind.summary) ++
    "\nUse 'cxxabi describe <kind>' for details.\n"

def factTable (kind : Kind) : String :=
  let snapshot := (Descriptor.mk kind).snapshot
  "=== ABI: " ++ kind.name ++ " ===\n" ++ kind.summary ++ "\n\n" ++
    String.join (snapshot.entries.map fun (property, value) =>
      row 40 property.key (if value then "yes" else "no")) ++
    row 40 "tail-padding" snapshot.tailPadding.name

def description? (kind : Kind) : String → Option String
  | "human" => some (factTable kind)
  | "toml" => some (Descriptor.mk kind).snapshot.toToml
  | "json" => some ((Descriptor.mk kind).snapshot.toJson.pretty ++ "\n")
  | _ => none

def describe (kindText : String) (format : Option String) : Report :=
  match Kind.ofText kindText with
  | .error e => .failed (.notDescribed e)
  | .ok kind =>
    let notices := [.log ⟨.info, "describing ABI", [("kind", kind.name)]⟩]
    let format := format.getD "human"
    match description? kind format with
    | some output => { output, notices }
    | none => .failed (.unknownFormat format) notices

def checked (path : Path) (notices : List Notice) (profile : Profile) : Report :=
  let issues := profile.issues
  let errors := issues.countP fun issue => issue.severity = .error
  let notices := notices ++ issues.map .issue
  if errors = 0 then { output := profile.name ++ ": ok (" ++ profile.abi.name ++ ")\n", notices }
  else .failed (.invalid path errors) notices

section
variable {m : Type → Type} [Monad m] [FileAccess m]

def check (path : Path) : m Report := do
  let (records, loaded) ← load path
  let notices := records.map .log
  match loaded with
  | .error e => return .failed (.loading path e) notices
  | .ok profile => return checked path notices profile

/-- Where a new profile goes unless a path is given. -/
def defaultPath (project : Path) (name : String) : Path :=
  (directoryOf project).join (.ofString (fileName name))

/-- Write the text of a new profile. Nothing that exists is written over. -/
def create (path : Path) (kind : Kind) (text : String) : m Report := do
  if ← FileAccess.pathExists path then return .failed (.alreadyExists path)
  match path.parent? with
  | none => write
  | some parent =>
    match ← makeDirectories parent with
    | .error e => return .failed (.creating parent e)
    | .ok () => write
where
  write : m Report := do
    match ← FileAccess.write path (Text.toBytes text) with
    | .error e => return .failed (.writing path e)
    | .ok () =>
      return {
        output := "Created " ++ path.shown ++ "\n"
        notices :=
          [.log ⟨.info, "wrote ABI profile", [("path", path.shown), ("kind", kind.name)]⟩] }

def new (project : Path) (name kindText : String) (output : Option Path) : m Report := do
  match Kind.ofText kindText with
  | .error e => return .failed (.unknownKind e)
  | .ok kind =>
    match Profile.template name kind with
    | .error e => return .failed (.invalidName e)
    | .ok text => create (output.getD (defaultPath project name)) kind text

def listed (found : String × Path) : m (List Notice × String) := do
  let (stem, path) := found
  let (records, loaded) ← load path
  let notices := records.map Notice.log
  match loaded with
  | .ok profile => return (notices, row 25 stem profile.abi.name)
  | .error e =>
    return (notices ++ [.log ⟨.warn, "unreadable profile", [("path", path.shown)]⟩],
      row 25 stem ("(invalid: " ++ e.message ++ ")"))

def profiles (project : Path) : m Report := do
  let (records, found) ← discover project
  let notices := records.map Notice.log
  match found with
  | .error e => return .failed (.listing e) notices
  | .ok [] =>
    return { output := "No ABI profiles found in " ++ (directoryOf project).shown ++ "\n", notices }
  | .ok found =>
    let lines ← found.mapM listed
    return {
      output := String.join (lines.map (·.2))
      notices := notices ++ lines.flatMap (·.1) }

def run : Command → m Report
  | .list => return { output := kindList }
  | .describe kind format => return describe kind format
  | .check file => check file
  | .new name abi output => do new (← FileAccess.currentDirectory) name abi output
  | .profiles (some directory) => profiles directory
  | .profiles none => do profiles (← FileAccess.currentDirectory)

end

def versionLine : String := "cxxabi 0.1.0\n"

end AbiFacts.CommandLine
