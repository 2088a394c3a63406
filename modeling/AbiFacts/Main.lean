import AbiFacts.CommandLine.Run

/-! # The program

Files are those of the operating system, and a report is printed when its command has run.
-/
namespace AbiFacts

open Files CommandLine

/-- The error of the operating system with this number. -/
private def systemError (number : UInt32) (message : String) : SystemError :=
  match number with
  | 2 => .notFound
  | 17 => .alreadyExists
  | 20 => .notDirectory
  | 21 => .isDirectory
  | 36 => .nameTooLong
  | 40 => .tooManyLinks
  | n => .other (message ++ " (os error " ++ toString n ++ ")")

private def systemErrorOf : IO.Error → SystemError
  | .alreadyExists _ n details | .otherError n details | .resourceBusy n details
  | .resourceVanished n details | .unsupportedOperation n details | .hardwareFault n details
  | .unsatisfiedConstraints n details | .illegalOperation n details | .protocolError n details
  | .timeExpired n details | .interrupted _ n details | .noFileOrDirectory _ n details
  | .invalidArgument _ n details | .permissionDenied _ n details | .resourceExhausted _ n details
  | .inappropriateType _ n details | .noSuchThing _ n details => systemError n details
  | e => .other (toString e)

private def attempt {α : Type} (action : IO α) : IO (Except SystemError α) := do
  match ← action.toBaseIO with
  | .ok value => return .ok value
  | .error e => return .error (systemErrorOf e)

instance : FileAccess IO where
  currentDirectory := return .ofString (← IO.currentDir).toString
  pathExists path := do return (← ((← IO.currentDir) / path.shown).pathExists)
  isDirectory path := do return (← ((← IO.currentDir) / path.shown).isDir)
  read path := attempt do return (← IO.FS.readBinFile path.shown).data.toList
  list path := attempt do
    let entries ← ((← IO.currentDir) / path.shown).readDir
    entries.toList.mapM fun entry => do
      let kind := (← entry.path.symlinkMetadata).type
      return ⟨.ofString entry.fileName, kind matches .file⟩
  makeDirectory path := attempt (IO.FS.createDir path.shown)
  write path content := attempt (IO.FS.writeBinFile path.shown ⟨content.toArray⟩)

def perform : Invocation → IO UInt32
  | .version => do
    IO.print versionLine
    return 0
  | .run verbosity command => do
    let report : Report ← run command
    IO.eprint (report.errorOutput verbosity)
    IO.print report.output
    return report.exitCode.toUInt32

end AbiFacts

/-- The exit code is 2 when the command line is rejected. -/
def main (words : List String) : IO UInt32 :=
  match AbiFacts.CommandLine.Invocation.ofWords? words with
  | some invocation => AbiFacts.perform invocation
  | none => do
    IO.eprintln "error: the command line fits no command"
    return 2
