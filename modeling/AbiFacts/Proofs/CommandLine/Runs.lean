import AbiFacts.Proofs.CommandLine.Creating

/-! # Runs of the program

The program is started again and again on one tree, each time with any words from any directory. No
file is lost and each new profile stays valid if and only if no call writes over a file. That takes
a path with a step up from a directory which is only made by the call itself.
-/
namespace AbiFacts.CommandLine

open Files Profile

structure Call where
  current : Location
  words : List String

namespace Call

def command? (call : Call) : Option Command :=
  match Invocation.ofWords? call.words with
  | some (.run _ command) => some command
  | _ => none

def leaves (call : Call) (tree : Tree) : Tree :=
  match call.command? with
  | some command => ((run command : InTree Report) call.current tree).2
  | none => tree

def pathFor (call : Call) (name : String) (output : Option Path) : Path :=
  output.getD (defaultPath call.current.path name)

def Creates (call : Call) (tree : Tree) (path : Path) (name : String) (kind : Kind) : Prop :=
  ∃ abi output, call.command? = some (.new name abi output) ∧ Kind.ofText abi = .ok kind ∧
    path = call.pathFor name output ∧
    ((run (.new name abi output) : InTree Report) call.current tree).1.failure = none

/-- The call succeeds in writing a new profile where there was a file with other content. -/
def Overwrites (call : Call) (tree : Tree) (location : Location) : Prop :=
  ∃ path name kind text old, call.Creates tree path name kind ∧
    Profile.template name kind = .ok text ∧ location = path.destination call.current ∧
    tree.lookup location = some (.file old) ∧ old ≠ Text.toBytes text

end Call

def runAll (calls : List Call) (tree : Tree) : Tree :=
  calls.foldl (fun tree call => call.leaves tree) tree

/-! ## One call -/

section
variable {tree : Tree} {call : Call} {path : Path} {name : String} {kind : Kind}

theorem Call.leaves_of_command {command : Command} (h : call.command? = some command)
    (tree : Tree) :
    call.leaves tree = ((run command : InTree Report) call.current tree).2 := by
  rw [leaves, h]

/-- A call that asks for no new profile leaves the tree as it is. -/
theorem Call.leaves_of_not_new (h : ∀ name abi output, call.command? ≠ some (.new name abi output))
    (tree : Tree) : call.leaves tree = tree := by
  cases hcommand : call.command? with
  | none => rw [leaves, hcommand]
  | some command =>
    rw [leaves_of_command hcommand, run_isQuiet]
    rintro name abi output rfl
    exact h name abi output hcommand

theorem Call.new_outcome (call : Call) (name abi : String) (output : Option Path)
    (hlinkless : tree.IsLinkless) :
    CreateOutcome call.current (call.pathFor name output) (IsTemplate name abi) tree
      ((run (.new name abi output) : InTree Report) call.current tree) := by
  rw [run, InTree.bind_apply, InTree.currentDirectory_apply]
  exact CommandLine.new_outcome hlinkless

theorem Call.Creates.isCreated (h : call.Creates tree path name kind)
    (hlinkless : tree.IsLinkless) :
    ∃ text, Profile.template name kind = .ok text ∧
      IsCreated call.current path (Text.toBytes text) tree (call.leaves tree) := by
  obtain ⟨abi, output, hcommand, hkind, rfl, hsucceeds⟩ := h
  have houtcome := call.new_outcome name abi output hlinkless
  rw [CreateOutcome, if_pos hsucceeds] at houtcome
  obtain ⟨content, ⟨other, text, hother, htemplate, rfl⟩, hcreated⟩ := houtcome
  rw [hkind, Except.ok.injEq] at hother
  subst hother
  rw [leaves_of_command hcommand]
  exact ⟨text, htemplate, hcreated⟩

/-- What one call can do: nothing, add directories, or create a file. -/
theorem Call.leaves_cases (call : Call) (hlinkless : tree.IsLinkless) :
    call.leaves tree = tree ∨
    (∃ name abi output, call.command? = some (.new name abi output) ∧
      tree.AddsDirectories ((call.pathFor name output).PassesThrough call.current)
        (call.leaves tree)) ∨
    ∃ path name kind, call.Creates tree path name kind := by
  by_cases hnew : ∃ name abi output, call.command? = some (.new name abi output)
  · obtain ⟨name, abi, output, hcommand⟩ := hnew
    have houtcome := call.new_outcome name abi output hlinkless
    rw [CreateOutcome] at houtcome
    split at houtcome
    case isTrue hsucceeds =>
      obtain ⟨_, ⟨kind, _, hkind, _⟩, _⟩ := houtcome
      exact .inr (.inr ⟨_, name, kind, abi, output, hcommand, hkind, rfl, hsucceeds⟩)
    case isFalse =>
      rw [← leaves_of_command hcommand] at houtcome
      exact .inr (.inl ⟨name, abi, output, hcommand, houtcome⟩)
  · exact .inl (leaves_of_not_new (fun name abi output hcommand =>
      hnew ⟨name, abi, output, hcommand⟩) tree)

theorem Call.leaves_isLinkless (call : Call) (hlinkless : tree.IsLinkless) :
    (call.leaves tree).IsLinkless := by
  obtain heq | ⟨_, _, _, _, hadds⟩ | ⟨path, name, kind, hcreates⟩ := call.leaves_cases hlinkless
  · rwa [heq]
  · exact hadds.isLinkless hlinkless
  · obtain ⟨text, -, hcreated⟩ := hcreates.isCreated hlinkless
    exact hcreated.isLinkless hlinkless

theorem Call.leaves_keepsDirectories (call : Call) (hlinkless : tree.IsLinkless) :
    tree.KeepsDirectories (call.leaves tree) := by
  obtain heq | ⟨_, _, _, _, hadds⟩ | ⟨path, name, kind, hcreates⟩ := call.leaves_cases hlinkless
  · rw [heq]
    exact fun _ => id
  · exact hadds.keepsDirectories
  · obtain ⟨text, -, hcreated⟩ := hcreates.isCreated hlinkless
    exact hcreated.keepsDirectories

/-- A file keeps its content unless the call writes over it. -/
theorem Call.lookup_leaves_iff (call : Call) (hlinkless : tree.IsLinkless) {location : Location}
    {content : List UInt8} (hfile : tree.lookup location = some (.file content)) :
    (call.leaves tree).lookup location = some (.file content) ↔
      ¬ call.Overwrites tree location := by
  constructor
  · rintro hkept ⟨path, name, kind, text, old, hcreates, htemplate, rfl, hold, hne⟩
    obtain ⟨other, hother, hcreated⟩ := hcreates.isCreated hlinkless
    have hwritten := hcreated.lookup (path.destination call.current)
    rw [htemplate, Except.ok.injEq] at hother
    rw [if_pos rfl, hkept, ← hother] at hwritten
    rw [hfile] at hold
    cases hold
    exact hne (Node.file.inj (Option.some.inj hwritten.2))
  · intro hno
    obtain heq | ⟨_, _, _, _, hadds⟩ | ⟨path, name, kind, hcreates⟩ := call.leaves_cases hlinkless
    · rwa [heq]
    · exact hadds.lookup_eq_some hfile
    · obtain ⟨text, htemplate, hcreated⟩ := hcreates.isCreated hlinkless
      have hlookup := hcreated.lookup location
      split at hlookup
      case isTrue hlocation =>
        have hsame : content = Text.toBytes text := by
          by_contra hne
          exact hno ⟨path, name, kind, text, content, hcreates, htemplate, hlocation, hfile, hne⟩
        rw [hlookup.2, hsame]
      case isFalse =>
        obtain heq | ⟨hnone, -⟩ := hlookup
        · rw [heq, hfile]
        · rw [hfile] at hnone
          cases hnone

/-- Nothing is missing afterwards. New directories are only on the way of the path, and a file is
written only at its end. -/
def Call.AddsAtMostOneFile (call : Call) (path : Path) (before after : Tree) : Prop :=
  ∀ location, after.lookup location = before.lookup location ∨
    (before.lookup location = none ∧ after.lookup location = some .directory ∧
      path.PassesThrough call.current location) ∨
    (location = path.destination call.current ∧ before.lookup location ≠ some .directory ∧
      ∃ content, after.lookup location = some (.file content))

theorem Call.addsAtMostOneFile (call : Call) (hlinkless : tree.IsLinkless) {abi : String}
    {output : Option Path} (hcommand : call.command? = some (.new name abi output)) :
    call.AddsAtMostOneFile (call.pathFor name output) tree (call.leaves tree) := by
  have houtcome := call.new_outcome name abi output hlinkless
  rw [CreateOutcome, ← leaves_of_command hcommand] at houtcome
  intro location
  split at houtcome
  case isTrue =>
    obtain ⟨content, -, hcreated⟩ := houtcome
    have hlookup := hcreated.lookup location
    split at hlookup
    case isTrue hlocation => exact .inr (.inr ⟨hlocation, hlookup.1, content, hlookup.2⟩)
    case isFalse => exact hlookup.imp_right .inl
  case isFalse => exact (houtcome location).imp_right .inl

/-- The path of a call that writes over a file takes a step up. -/
theorem Call.Overwrites.dotDot_mem {location : Location} (h : call.Overwrites tree location)
    (hlinkless : tree.IsLinkless) :
    ∃ path name kind, call.Creates tree path name kind ∧ location = path.destination call.current ∧
      tree.pathExists call.current path = false ∧ Path.dotDot ∈ path.names := by
  obtain ⟨path, name, kind, text, old, hcreates, -, rfl, hold, -⟩ := h
  obtain ⟨_, -, hcreated⟩ := hcreates.isCreated hlinkless
  exact ⟨path, name, kind, hcreates, rfl, hcreated.missing, hcreated.dotDot_mem hlinkless hold⟩

end

/-! ## Many calls -/

section
variable {tree : Tree} {calls : List Call}

theorem runAll_append (first second : List Call) (tree : Tree) :
    runAll (first ++ second) tree = runAll second (runAll first tree) :=
  List.foldl_append

theorem runAll_isLinkless (hlinkless : tree.IsLinkless) (calls : List Call) :
    (runAll calls tree).IsLinkless := by
  induction calls generalizing tree with
  | nil => exact hlinkless
  | cons call calls ih => exact ih (call.leaves_isLinkless hlinkless)

theorem runAll_keepsDirectories (hlinkless : tree.IsLinkless) (calls : List Call) :
    tree.KeepsDirectories (runAll calls tree) := by
  induction calls generalizing tree with
  | nil => exact fun _ => id
  | cons call calls ih =>
    exact (call.leaves_keepsDirectories hlinkless).trans (ih (call.leaves_isLinkless hlinkless))

def OverwritesIn (calls : List Call) (tree : Tree) (location : Location) : Prop :=
  ∃ (before : List Call) (call : Call) (after : List Call), calls = before ++ call :: after ∧
    call.Overwrites (runAll before tree) location

/-- A file keeps its content as long as no call writes over it. -/
theorem lookup_runAll (hlinkless : tree.IsLinkless) {location : Location} {content : List UInt8}
    (hfile : tree.lookup location = some (.file content))
    (hno : ¬ OverwritesIn calls tree location) :
    (runAll calls tree).lookup location = some (.file content) := by
  induction calls generalizing tree with
  | nil => exact hfile
  | cons call calls ih =>
    refine ih (call.leaves_isLinkless hlinkless) ?_ ?_
    · exact (call.lookup_leaves_iff hlinkless hfile).mpr fun hover =>
        hno ⟨[], call, calls, rfl, hover⟩
    · rintro ⟨before, other, after, rfl, hover⟩
      exact hno ⟨call :: before, other, after, rfl, hover⟩

/-- A new profile stays valid as long as no call writes over it. -/
theorem loadsAs_runAll (hlinkless : tree.IsLinkless) {call : Call} {path : Path} {name : String}
    {kind : Kind} (hcreates : call.Creates tree path name kind)
    (hno : ¬ OverwritesIn calls (call.leaves tree) (path.destination call.current)) :
    LoadsAs (runAll calls (call.leaves tree)) call.current path name kind := by
  obtain ⟨text, htemplate, hcreated⟩ := hcreates.isCreated hlinkless
  have hwritten := hcreated.lookup (path.destination call.current)
  rw [if_pos rfl] at hwritten
  have hleft := call.leaves_isLinkless hlinkless
  exact loadsAs_of_template htemplate (hcreated.resolve_look (runAll_isLinkless hleft calls)
    (runAll_keepsDirectories hleft calls) (lookup_runAll hleft hwritten.2 hno))

end

/-! ## Safe runs -/

/-- A call does no damage, and what it creates stays valid whatever calls follow. -/
structure Call.IsSafe (call : Call) (tree : Tree) (after : List Call) : Prop where
  keepsFiles : ∀ location content, tree.lookup location = some (.file content) →
    (call.leaves tree).lookup location = some (.file content)
  onlyNew : (∀ name abi output, call.command? ≠ some (.new name abi output)) →
    call.leaves tree = tree
  addsAtMostOneFile : ∀ name abi output, call.command? = some (.new name abi output) →
    call.AddsAtMostOneFile (call.pathFor name output) tree (call.leaves tree)
  staysValid : ∀ path name kind, call.Creates tree path name kind → ∀ later, later <+: after →
    LoadsAs (runAll later (call.leaves tree)) call.current path name kind

def RunsSafely (tree : Tree) (calls : List Call) : Prop :=
  ∀ before call after, calls = before ++ call :: after → call.IsSafe (runAll before tree) after

section
variable {tree : Tree} {calls : List Call}

/-- What is overwritten in a part of a run is overwritten in the run. -/
theorem OverwritesIn.of_part {before later rest : List Call} {call : Call} {location : Location}
    (h : OverwritesIn later (call.leaves (runAll before tree)) location) :
    OverwritesIn (before ++ call :: (later ++ rest)) tree location := by
  obtain ⟨first, other, second, rfl, hover⟩ := h
  refine ⟨before ++ call :: first, other, second ++ rest, by simp, ?_⟩
  rw [runAll_append]
  exact hover

theorem runsSafely_iff (hlinkless : tree.IsLinkless) :
    RunsSafely tree calls ↔ ∀ location, ¬ OverwritesIn calls tree location := by
  constructor
  · rintro hsafe location ⟨before, call, after, hcalls, hover⟩
    obtain ⟨_, _, _, _, old, _, _, _, hold, _⟩ := id hover
    have hkept := (hsafe before call after hcalls).keepsFiles location old hold
    exact (call.lookup_leaves_iff (runAll_isLinkless hlinkless before) hold).mp hkept hover
  · rintro hno before call after rfl
    have hstart := runAll_isLinkless hlinkless before
    refine ⟨fun location content hfile => ?_, fun hother => call.leaves_of_not_new hother _,
      fun name abi output => call.addsAtMostOneFile hstart, ?_⟩
    · refine (call.lookup_leaves_iff hstart hfile).mpr fun hover => hno location ?_
      exact ⟨before, call, after, rfl, hover⟩
    · rintro path name kind hcreates later ⟨rest, rfl⟩
      exact loadsAs_runAll hstart hcreates fun hover => hno _ hover.of_part

/-- No call asks for a new profile at a path that takes a step up. -/
def StaysBelow (calls : List Call) : Prop :=
  ∀ call ∈ calls, ∀ name abi output, call.command? = some (.new name abi output) →
    Path.dotDot ∉ (call.pathFor name output).names

theorem StaysBelow.not_overwritesIn (h : StaysBelow calls) (hlinkless : tree.IsLinkless)
    (location : Location) : ¬ OverwritesIn calls tree location := by
  rintro ⟨before, call, after, rfl, hover⟩
  obtain ⟨path, name, kind, ⟨abi, output, hcommand, -, rfl, -⟩, -, -, hup⟩ :=
    hover.dotDot_mem (runAll_isLinkless hlinkless before)
  exact h call (by simp) name abi output hcommand hup

end

/-- In a tree without links, a run is safe if and only if none of its calls writes over a file, so
for certain if no path takes a step up. Whatever the run, only new profiles change the tree, by at
most one file and missing directories. Each file keeps its content in a call unless it is written
over, and each new profile stays valid until it is. The path of a call that writes over a file leads
to nothing before the call and takes a step up. -/
theorem runs_are_safe_iff_nothing_is_overwritten (tree : Tree) (hlinkless : tree.IsLinkless)
    (calls : List Call) :
    (RunsSafely tree calls ↔ ∀ location, ¬ OverwritesIn calls tree location) ∧
    (StaysBelow calls → RunsSafely tree calls) ∧
    ∀ before call after, calls = before ++ call :: after →
      ((∀ name abi output, call.command? ≠ some (.new name abi output)) →
        call.leaves (runAll before tree) = runAll before tree) ∧
      (∀ name abi output, call.command? = some (.new name abi output) →
        call.AddsAtMostOneFile (call.pathFor name output) (runAll before tree)
          (call.leaves (runAll before tree))) ∧
      (∀ location content, (runAll before tree).lookup location = some (.file content) →
        ((call.leaves (runAll before tree)).lookup location = some (.file content) ↔
          ¬ call.Overwrites (runAll before tree) location)) ∧
      (∀ path name kind, call.Creates (runAll before tree) path name kind →
        ∀ later, later <+: after →
          ¬ OverwritesIn later (call.leaves (runAll before tree))
            (path.destination call.current) →
          LoadsAs (runAll later (call.leaves (runAll before tree))) call.current path name kind) ∧
      ∀ location, call.Overwrites (runAll before tree) location →
        ∃ path name kind, call.Creates (runAll before tree) path name kind ∧
          location = path.destination call.current ∧
          (runAll before tree).pathExists call.current path = false ∧
          Path.dotDot ∈ path.names := by
  refine ⟨runsSafely_iff hlinkless, fun hbelow => ?_, fun before call after _ => ?_⟩
  · exact (runsSafely_iff hlinkless).mpr (hbelow.not_overwritesIn hlinkless)
  · have hstart := runAll_isLinkless hlinkless before
    exact ⟨fun hother => call.leaves_of_not_new hother _,
      fun name abi output => call.addsAtMostOneFile hstart,
      fun location content hfile => call.lookup_leaves_iff hstart hfile,
      fun path name kind hcreates later _ hno => loadsAs_runAll hstart hcreates hno,
      fun location hover => hover.dotDot_mem hstart⟩

def oneFile : Tree :=
  Tree.put [Name.ofString "keep.txt"] (.file (Text.toBytes "precious")) default

theorem oneFile_isLinkless : oneFile.IsLinkless :=
  Tree.isLinkless_put_file (fun location target => by simp [Tree.lookup, default])
    (by decide +kernel) _

/-- A new profile in its usual place is no danger to the file beside it. -/
theorem new_beside_a_file_is_safe :
    oneFile.IsLinkless ∧
    (Call.mk [] ["new", "x", "--abi", "ios"]).Creates oneFile (.ofString "/abi/x.abi.toml") "x"
      .ios ∧
    RunsSafely oneFile
      [⟨[], ["new", "x", "--abi", "ios"]⟩, ⟨[], ["check", "abi/x.abi.toml"]⟩] := by
  refine ⟨oneFile_isLinkless, ⟨"ios", none, by decide +kernel, rfl, ?_, by decide +kernel⟩, ?_⟩
  · decide +kernel
  · refine (runs_are_safe_iff_nothing_is_overwritten oneFile oneFile_isLinkless _).2.1 ?_
    have hnew : (Call.mk [] ["new", "x", "--abi", "ios"]).command? =
        some (.new "x" "ios" none) := by
      decide +kernel
    have hcheck : (Call.mk [] ["check", "abi/x.abi.toml"]).command? =
        some (.check (.ofString "abi/x.abi.toml")) := by
      decide +kernel
    intro call hcall name abi output hcommand
    obtain rfl | rfl := by simpa using hcall
    · rw [hnew] at hcommand
      cases hcommand
      decide +kernel
    · rw [hcheck] at hcommand
      cases hcommand

/-- The parent of this path is made only after the path was not found, and then the path leads to
the file. -/
theorem new_overwrites_through_a_missing_directory :
    oneFile.IsLinkless ∧
    oneFile.lookup [Name.ofString "keep.txt"] = some (.file (Text.toBytes "precious")) ∧
    ¬ RunsSafely oneFile
      [⟨[], ["new", "x", "--abi", "ios", "--output", "missing/../keep.txt"]⟩] := by
  have hfile : oneFile.lookup [Name.ofString "keep.txt"] =
      some (.file (Text.toBytes "precious")) := by decide +kernel
  refine ⟨oneFile_isLinkless, hfile, fun hsafe => ?_⟩
  have hkept := (hsafe [] _ [] rfl).keepsFiles _ _ hfile
  revert hkept
  decide +kernel

end AbiFacts.CommandLine
