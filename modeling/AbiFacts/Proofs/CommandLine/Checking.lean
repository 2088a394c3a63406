import AbiFacts.Proofs.CommandLine.Creating
import AbiFacts.Proofs.Profile.Loading
import AbiFacts.Proofs.Profile.Validation

/-! # Checking profile files

A check tells all issues of the profile that it loads and fails if and only if some of them are
errors, whose number it tells too. A profile that cannot be loaded fails the check with the error of
loading it (`checks_tell_every_issue`).
-/
namespace AbiFacts

instance (name : String) : Decidable (IsUsable name) :=
  decidable_of_iff _ nameProblem?_eq_none

namespace Profile

/-- The number of errors in a profile: one for a name that is not usable and one for each
mismatch. -/
def errorCount (p : Profile) : Nat :=
  (if IsUsable p.name then 0 else 1) + p.mismatches.length

theorem errorCount_eq_zero {p : Profile} : p.errorCount = 0 ↔ IsUsable p.name ∧ p.PinsAgree := by
  rw [errorCount, Nat.add_eq_zero_iff, List.length_eq_zero_iff, mismatches_eq_nil]
  refine and_congr_left fun _ => ?_
  by_cases husable : IsUsable p.name <;> simp [husable]

/-- Each mismatch is an error, and so is the problem of the name. -/
theorem countP_issues (p : Profile) :
    (p.issues.countP fun issue => issue.severity = .error) = p.errorCount := by
  have hname : (((nameProblem? p.name).map (Issue.name p.name)).toList.countP fun issue =>
      issue.severity = .error) = if IsUsable p.name then 0 else 1 := by
    cases hproblem : nameProblem? p.name with
    | none => rw [if_pos (nameProblem?_eq_none.mp hproblem)]; rfl
    | some problem =>
      have hunusable : ¬ IsUsable p.name := by
        rw [← nameProblem?_eq_none, hproblem]
        exact fun heq => nomatch heq
      rw [if_neg hunusable]
      rfl
  have hmismatches : ((p.mismatches.map (Issue.mismatch p.abi)).countP fun issue =>
      issue.severity = .error) = p.mismatches.length := by
    rw [List.countP_map]
    exact List.countP_eq_length.mpr fun _ _ => rfl
  have hwarning : (if p.expect.any Expectations.isEmpty then [Issue.nothingPinned] else []).countP
      (fun issue => issue.severity = .error) = 0 := by
    split <;> rfl
  rw [issues, List.countP_append, List.countP_append, hname, hmismatches, hwarning, errorCount,
    Nat.add_zero]

end Profile

namespace CommandLine

open Files Profile

def issueLine (issue : Issue) : String :=
  issue.severity.name ++ ": " ++ issue.message

/-- The last line where a profile has errors. -/
def countLine (path : Path) (errors : Nat) : String :=
  "error: " ++ path.shown ++ ": " ++ toString errors ++ " error(s)"

/-- The only line where no profile is loaded: the error, and the one underneath it. -/
def loadErrorLine (path : Path) (e : LoadError) : String :=
  "error: loading " ++ path.shown ++ ": " ++ e.message ++
    e.cause?.elim "" fun cause => ": " ++ cause

/-- What the log says of a file before anything else, to those who ask for this much. -/
def logLines (path : Path) (verbosity : Nat) : List String :=
  if 2 ≤ verbosity then ["DEBUG loading ABI profile path=" ++ path.shown] else []

def linesText (lines : List String) : String :=
  String.join (lines.map fun line => line ++ "\n")

/-- The report on a profile: all its issues in order, whatever comes of it, then the number of
errors or that there are none. -/
structure TellsIssues (path : Path) (p : Profile) (report : Report) : Prop where
  notices : report.notices = .log (loadingRecord path) :: p.issues.map .issue
  failure : report.failure = if p.errorCount = 0 then none else some (.invalid path p.errorCount)
  output : report.output =
    if p.errorCount = 0 then p.name ++ ": ok (" ++ p.abi.name ++ ")\n" else ""
  errorOutput : ∀ verbosity, report.errorOutput verbosity =
    linesText (logLines path verbosity ++ p.issues.map issueLine ++
      if p.errorCount = 0 then [] else [countLine path p.errorCount])
  exitCode : report.exitCode = if p.errorCount = 0 then 0 else 1

/-- The report on a file from which no profile is loaded. The log does not speak of a path at which
there is nothing. -/
structure TellsLoadError (path : Path) (e : LoadError) (report : Report) : Prop where
  output : report.output = ""
  errorOutput : ∀ verbosity, report.errorOutput verbosity =
    linesText ((if e = .notFound path then [] else logLines path verbosity) ++
      [loadErrorLine path e])
  exitCode : report.exitCode = 1

/-! ## Lines -/

theorem Report.errorOutput_eq (report : Report) (verbosity : Nat) :
    report.errorOutput verbosity =
      linesText (report.notices.flatMap (Report.noticeLines verbosity) ++
        (report.failure.map fun failure =>
          "error: " ++ String.intercalate ": " failure.chain).toList) :=
  rfl

theorem noticeLines_loadingRecord (path : Path) (verbosity : Nat) :
    Report.noticeLines verbosity (.log (loadingRecord path)) = logLines path verbosity := by
  have htext : (loadingRecord path).text = "DEBUG loading ABI profile path=" ++ path.shown :=
    congrArg (fun front => front ++ path.shown)
      (by decide +kernel : "DEBUG" ++ " " ++ "loading ABI profile" ++ " " ++ "path" ++ "=" =
        "DEBUG loading ABI profile path=")
  rw [Report.noticeLines, htext]
  rfl

theorem errorLine_invalid (path : Path) (errors : Nat) :
    "error: " ++ String.intercalate ": " (Failure.invalid path errors).chain =
      countLine path errors := by
  simp [Failure.chain, countLine, String.append_assoc]

theorem errorLine_loading (path : Path) (e : LoadError) :
    "error: " ++ String.intercalate ": " (Failure.loading path e).chain = loadErrorLine path e := by
  have hfront : "error: " ++ "loading " = "error: loading " := by decide +kernel
  have hchain : (Failure.loading path e).chain =
      ("loading " ++ path.shown) :: e.message :: e.cause?.toList := rfl
  rw [hchain, String.intercalate_cons_cons, ← String.append_assoc, ← String.append_assoc,
    ← String.append_assoc, hfront]
  unfold loadErrorLine
  cases e.cause? with
  | none => simp
  | some cause => simp [String.append_assoc]

/-! ## Reports -/

variable {tree : Tree} {current : Location} {path : Path}

theorem check_of_load_error {e : LoadError} {records : List LogRecord}
    (h : ((load path : InTree _) current tree).1 = (records, .error e)) :
    ((check path : InTree Report) current tree).1 =
      .failed (.loading path e) (records.map .log) := by
  rw [check, InTree.bind_apply, h]
  rfl

theorem check_of_load_ok {p : Profile} {records : List LogRecord}
    (h : ((load path : InTree _) current tree).1 = (records, .ok p)) :
    ((check path : InTree Report) current tree).1 = checked path (records.map .log) p := by
  rw [check, InTree.bind_apply, h]
  rfl

theorem checked_eq (path : Path) (notices : List Notice) (p : Profile) :
    checked path notices p =
      { output := if p.errorCount = 0 then p.name ++ ": ok (" ++ p.abi.name ++ ")\n" else ""
        notices := notices ++ p.issues.map .issue
        failure := if p.errorCount = 0 then none else some (.invalid path p.errorCount) } := by
  rw [checked, countP_issues]
  split <;> rfl

theorem tellsIssues_checked (path : Path) (p : Profile) :
    TellsIssues path p (checked path [.log (loadingRecord path)] p) := by
  rw [checked_eq]
  refine ⟨rfl, rfl, rfl, fun verbosity => ?_, ?_⟩
  · have hissues : (p.issues.map Notice.issue).flatMap (Report.noticeLines verbosity) =
        p.issues.map issueLine := by
      rw [List.flatMap_map]
      exact List.map_eq_flatMap.symm
    rw [Report.errorOutput_eq, List.flatMap_append, List.flatMap_singleton,
      noticeLines_loadingRecord, hissues]
    split
    · rfl
    · rw [← errorLine_invalid]
      rfl
  · rw [Report.exitCode]
    split <;> rfl

theorem tellsLoadError_failed (path : Path) (e : LoadError) :
    TellsLoadError path e (.failed (.loading path e)
      (if e = .notFound path then [] else [.log (loadingRecord path)])) := by
  refine ⟨rfl, fun verbosity => ?_, rfl⟩
  rw [Report.errorOutput_eq, ← errorLine_loading, ← noticeLines_loadingRecord]
  by_cases hmissing : e = .notFound path
  · rw [if_pos hmissing, if_pos hmissing]
    rfl
  · rw [if_neg hmissing, if_neg hmissing]
    exact congrArg (fun lines => linesText (lines ++ [_])) (List.append_nil _)

theorem tellsIssues_of_loads {p : Profile} (h : Loads tree current path (.ok p)) :
    TellsIssues path p ((check path : InTree Report) current tree).1 := by
  obtain ⟨content, _, hfile, _⟩ := loads_ok_iff.mp h
  have hload : ((load path : InTree _) current tree).1 = ([loadingRecord path], .ok p) := by
    rw [← load_eq_iff.mpr h, load_of_leadsToFile hfile]
  rw [check_of_load_ok hload]
  exact tellsIssues_checked path p

theorem tellsLoadError_of_loads {e : LoadError} (h : Loads tree current path (.error e)) :
    TellsLoadError path e ((check path : InTree Report) current tree).1 := by
  rw [check_of_load_error (load_of_loads_error h), apply_ite (List.map Notice.log)]
  exact tellsLoadError_failed path e

/-- A check fails in loading exactly as loading fails. -/
theorem check_failure_eq_loading {e : LoadError} :
    ((check path : InTree Report) current tree).1.failure = some (.loading path e) ↔
      Loads tree current path (.error e) := by
  rw [← load_eq_iff]
  cases hresult : ((load path : InTree _) current tree).1.2 with
  | error other =>
    rw [check_of_load_error (Prod.ext rfl hresult)]
    simp [Report.failed]
  | ok p =>
    rw [(tellsIssues_of_loads (load_eq_iff.mp hresult)).failure]
    split <;> simp

/-- A check succeeds exactly if a profile without errors is loaded. -/
theorem check_failure_eq_none :
    ((check path : InTree Report) current tree).1.failure = none ↔
      ∃ p, Loads tree current path (.ok p) ∧ IsUsable p.name ∧ p.PinsAgree := by
  cases hresult : ((load path : InTree _) current tree).1.2 with
  | error e =>
    have hfails := check_failure_eq_loading.mpr (load_eq_iff.mp hresult)
    have hno : ∀ p, ¬ Loads tree current path (.ok p) := by
      intro p h
      rw [load_eq_iff.mpr h] at hresult
      cases hresult
    simp [hfails, hno]
  | ok p =>
    have hloads := load_eq_iff.mp hresult
    have honly : ∀ other, Loads tree current path (.ok other) → other = p := by
      intro other h
      rw [load_eq_iff.mpr h] at hresult
      exact Except.ok.inj hresult
    rw [(tellsIssues_of_loads hloads).failure, ite_eq_left_iff]
    simp only [reduceCtorEq, imp_false, Classical.not_not, errorCount_eq_zero]
    constructor
    · exact fun hright => ⟨p, hloads, hright⟩
    · rintro ⟨other, h, hright⟩
      exact honly other h ▸ hright

/-- A check changes nothing. It succeeds, with the exit code 0, exactly if the path leads to a file
with the text of a profile whose name is usable and whose pins agree with its kind. All issues of a
profile that is loaded are printed in order, with the number of errors after them if there are any.
Otherwise the failure tells whether nothing was found, no text could be read, or the text is no
profile, and is all that is printed beside the log. -/
theorem checks_tell_every_issue (tree : Tree) (current : Location) (path : Path) :
    let outcome := (run (.check path) : InTree Report) current tree
    outcome.2 = tree ∧
    (outcome.1.exitCode = 0 ↔ outcome.1.failure = none) ∧
    (outcome.1.failure = none ↔
      ∃ content text p, tree.LeadsToFile current path content ∧
        Text.ofBytes? content = some text ∧ Toml.profile? text = .ok p ∧
        IsUsable p.name ∧ p.PinsAgree) ∧
    (∀ content text p, tree.LeadsToFile current path content → Text.ofBytes? content = some text →
      Toml.profile? text = .ok p → TellsIssues path p outcome.1) ∧
    (∀ e, outcome.1.failure = some (.loading path e) → TellsLoadError path e outcome.1) ∧
    (outcome.1.failure = some (.loading path (.notFound path)) ↔
      tree.pathExists current path = false) ∧
    ((∃ e, outcome.1.failure = some (.loading path (.unreadable e))) ↔
      tree.pathExists current path = true ∧
        ¬ ∃ content text, tree.LeadsToFile current path content ∧
          Text.ofBytes? content = some text) ∧
    ∀ failure, outcome.1.failure = some (.loading path (.invalid failure)) ↔
      ∃ content text, tree.LeadsToFile current path content ∧ Text.ofBytes? content = some text ∧
        Toml.profile? text = .error failure := by
  refine ⟨check_isQuiet path current tree, Report.exitCode_eq_zero, ?_,
    fun content text p hfile htext hprofile => ?_,
    fun e hfails => tellsLoadError_of_loads (check_failure_eq_loading.mp hfails),
    check_failure_eq_loading.trans loads_notFound_iff,
    (exists_congr fun _ => check_failure_eq_loading).trans loads_unreadable_iff,
    fun failure => check_failure_eq_loading.trans loads_invalid_iff⟩
  · refine check_failure_eq_none.trans ?_
    simp only [loads_ok_iff]
    constructor
    · rintro ⟨p, ⟨content, text, hfile, htext, hprofile⟩, hright⟩
      exact ⟨content, text, p, hfile, htext, hprofile, hright⟩
    · rintro ⟨content, text, p, hfile, htext, hprofile, hright⟩
      exact ⟨p, ⟨content, text, hfile, htext, hprofile⟩, hright⟩
  · exact tellsIssues_of_loads (loads_ok_iff.mpr ⟨content, text, hfile, htext, hprofile⟩)

/-- A profile with a bad name, a wrong pin and a right one. -/
def twoErrors : Profile where
  name := "two words"
  abi := .ios64
  expect := some ((Expectations.setPin .microsoft (some true) {}).setPin .keyFunctions (some true))

/-- Both errors are printed, and counted. -/
theorem check_of_two_errors_fails :
    ∃ report, ((run (.check (.ofString "demo.toml")) : InTree Report) []
        (Tree.put [Name.ofString "demo.toml"] (.file (Text.toBytes twoErrors.toToml)) default)).1 =
        report ∧
      report.failure = some (.invalid (.ofString "demo.toml") 2) ∧ report.exitCode = 1 ∧
      report.output = "" ∧
      report.errorOutput 0 =
        "error: profile name 'two words' contains whitespace or a path separator\n" ++
        "error: expected microsoft = true but ABI 'ios64' has false\n" ++
        "error: demo.toml: 2 error(s)\n" := by
  have hfile : Tree.LeadsToFile
      (Tree.put [Name.ofString "demo.toml"] (.file (Text.toBytes twoErrors.toToml)) default)
      [] (.ofString "demo.toml") (Text.toBytes twoErrors.toToml) :=
    ⟨[Name.ofString "demo.toml"], by decide +kernel⟩
  have htells := (checks_tell_every_issue _ [] _).2.2.2.1 _ _ twoErrors hfile
    (Text.ofBytes?_toBytes _) (Toml.profile?_toToml _)
  have hcount : twoErrors.errorCount = 2 := by decide +kernel
  refine ⟨_, rfl, ?_, ?_, ?_, ?_⟩
  · rw [htells.failure, hcount]
    rfl
  · rw [htells.exitCode, hcount]
    rfl
  · rw [htells.output, hcount]
    rfl
  · rw [htells.errorOutput, hcount]
    decide +kernel

end CommandLine
end AbiFacts
