import AbiFacts.Lookup
import AbiFacts.Profile.Files

/-! # Reports of commands

What a command run tells: its output, its notices in order, and why it failed, if it did. How much
of the log is shown is decided only when a report is printed.
-/
namespace AbiFacts.CommandLine

open Files Profile

inductive Failure where
  | unknownKind (error : NameError)
  /-- An unknown kind where the list of kinds helps. -/
  | notDescribed (error : NameError)
  | unknownFormat (format : String)
  | loading (path : Path) (error : LoadError)
  | invalid (path : Path) (errors : Nat)
  | invalidName (error : InvalidName)
  | alreadyExists (path : Path)
  | creating (path : Path) (error : SystemError)
  | writing (path : Path) (error : SystemError)
  | listing (error : SystemError)
  deriving DecidableEq

/-- The message and then the causes underneath it, outermost first. -/
def Failure.chain : Failure → List String
  | unknownKind e => [e.message]
  | notDescribed e => ["use 'cxxabi list' to see available kinds", e.message]
  | unknownFormat format =>
    ["unknown format '" ++ format ++ "' (expected human, toml, or json)"]
  | loading path e => ["loading " ++ path.shown, e.message] ++ e.cause?.toList
  | invalid path errors => [path.shown ++ ": " ++ toString errors ++ " error(s)"]
  | invalidName e => [e.message]
  | alreadyExists path => [path.shown ++ " already exists"]
  | creating path e => ["creating " ++ path.shown, e.message]
  | writing path e => ["writing " ++ path.shown, e.message]
  | listing e => ["I/O error: " ++ e.message, e.message]

inductive Notice where
  | log (record : LogRecord)
  | issue (issue : Issue)
  deriving DecidableEq

structure Report where
  output : String := ""
  notices : List Notice := []
  failure : Option Failure := none

namespace Report

def failed (failure : Failure) (notices : List Notice := []) : Report :=
  { notices, failure := some failure }

def exitCode (report : Report) : UInt8 :=
  if report.failure.isSome then 1 else 0

theorem exitCode_eq_zero {report : Report} : report.exitCode = 0 ↔ report.failure = none := by
  rw [exitCode]
  cases report.failure with
  | none => decide
  | some failure => simp

def noticeLines (verbosity : Nat) : Notice → List String
  | .log record => if record.level.verbosity ≤ verbosity then [record.text] else []
  | .issue issue => [issue.severity.name ++ ": " ++ issue.message]

/-- What goes to standard error. -/
def errorOutput (verbosity : Nat) (report : Report) : String :=
  let lines := report.notices.flatMap (noticeLines verbosity) ++
    (report.failure.map fun failure => "error: " ++ String.intercalate ": " failure.chain).toList
  String.join (lines.map fun line => line ++ "\n")

end Report
end AbiFacts.CommandLine
