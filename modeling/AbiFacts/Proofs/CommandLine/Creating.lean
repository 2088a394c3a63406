import AbiFacts.Proofs.CommandLine.Outcomes
import AbiFacts.Proofs.Profile.Loading

/-! # Creating profile files

Of all commands only the one for new profiles changes the tree. It makes the missing directories on
the way to its path and, if it succeeds, puts a file at the end of it.
-/
namespace AbiFacts.CommandLine

open Files Profile
open InTree (IsQuiet)

/-! ## Commands that only look -/

theorem load_isQuiet (path : Path) : IsQuiet (load path : InTree _) := by
  refine .bind (fun _ _ => rfl) fun found => ?_
  split
  case isTrue =>
    refine .bind (fun _ _ => rfl) fun content => ?_
    cases content with
    | error => exact .pure _
    | ok => exact .pure _
  case isFalse => exact .pure _

theorem check_isQuiet (path : Path) : IsQuiet (check path : InTree _) := by
  refine (load_isQuiet path).bind fun (records, loaded) => ?_
  cases loaded with
  | error => exact .pure _
  | ok => exact .pure _

theorem discover_isQuiet (project : Path) : IsQuiet (discover project : InTree _) := by
  refine .bind (fun _ _ => rfl) fun found => ?_
  split
  case isTrue =>
    refine .bind (fun _ _ => rfl) fun entries => ?_
    cases entries with
    | error => exact .pure _
    | ok => exact .pure _
  case isFalse => exact .pure _

theorem listed_isQuiet (found : String × Path) : IsQuiet (listed found : InTree _) := by
  refine (load_isQuiet found.2).bind fun (records, loaded) => ?_
  cases loaded with
  | error => exact .pure _
  | ok => exact .pure _

theorem profiles_isQuiet (project : Path) : IsQuiet (profiles project : InTree _) := by
  refine (discover_isQuiet project).bind fun (records, found) => ?_
  match found with
  | .error _ => exact .pure _
  | .ok [] => exact .pure _
  | .ok (first :: rest) => exact (IsQuiet.mapM listed_isQuiet _).bind fun _ => .pure _

/-- Every other command leaves the tree as it is. -/
theorem run_isQuiet {command : Command} (h : ∀ name abi output, command ≠ .new name abi output) :
    IsQuiet (run command : InTree _) := by
  cases command with
  | list => exact .pure _
  | describe => exact .pure _
  | check file => exact check_isQuiet file
  | new name abi output => exact absurd rfl (h name abi output)
  | profiles directory =>
    cases directory with
    | none => exact .bind (fun _ _ => rfl) profiles_isQuiet
    | some directory => exact profiles_isQuiet directory

/-! ## New files -/

/-- A file is created: its path is not found, the missing directories on the way are made, and then
it is put at the end. -/
structure IsCreated (current : Location) (path : Path) (content : List UInt8)
    (before after : Tree) : Prop where
  missing : before.pathExists current path = false
  written : ∃ between, Tree.AddsDirectories (path.PassesThrough current) before between ∧
    between.Reaches current path ∧ after = between.put (path.destination current) (.file content)

theorem makeDirectories_adds (current : Location) {tree : Tree} {path parent : Path}
    (hlinkless : tree.IsLinkless) (hparent : path.parent? = some parent) :
    Tree.AddsDirectories (path.PassesThrough current) tree
      ((makeDirectories parent : InTree _) current tree).2 :=
  makeParents_adds hlinkless (Path.isBelow_of_parent? hparent)

namespace IsCreated

variable {before after : Tree} {current : Location} {path : Path} {content : List UInt8}

/-- A created file is at the end of its path. Elsewhere only directories are added. -/
theorem lookup (h : IsCreated current path content before after) (location : Location) :
    if location = path.destination current then
      before.lookup location ≠ some .directory ∧ after.lookup location = some (.file content)
    else after.lookup location = before.lookup location ∨
      before.lookup location = none ∧ after.lookup location = some .directory ∧
        path.PassesThrough current location := by
  obtain ⟨between, hadds, hreaches, rfl⟩ := h.written
  rw [Tree.lookup_put hreaches.admits]
  split
  case isTrue heq =>
    refine ⟨fun hdir => ?_, rfl⟩
    refine Tree.lookup_ne_directory_of_admits hreaches.admits ?_
    exact heq ▸ hadds.lookup_eq_some hdir
  case isFalse => exact hadds location

theorem isLinkless (h : IsCreated current path content before after)
    (hlinkless : before.IsLinkless) : after.IsLinkless := by
  obtain ⟨between, hadds, hreaches, rfl⟩ := h.written
  exact Tree.isLinkless_put_file (hadds.isLinkless hlinkless) hreaches.admits content

theorem keepsDirectories (h : IsCreated current path content before after) :
    Tree.KeepsDirectories before after := by
  obtain ⟨between, hadds, hreaches, rfl⟩ := h.written
  exact hadds.keepsDirectories.trans (Tree.keepsDirectories_put hreaches.admits _)

/-- As long as the directories are kept, the path leads to what is at its end. -/
theorem resolve_look (h : IsCreated current path content before after) {later : Tree}
    (hlinkless : later.IsLinkless) (hkeep : Tree.KeepsDirectories after later) {node : Node}
    (hnode : later.lookup (path.destination current) = some node) :
    later.resolve .look current path = .ok (.present (path.destination current) node) := by
  obtain ⟨between, hadds, hreaches, rfl⟩ := h.written
  refine hreaches.resolve_look hlinkless ?_ hnode
  exact (Tree.keepsDirectories_put hreaches.admits _).trans hkeep

/-- Only a path with a step up can end at something that it did not lead to before. -/
theorem dotDot_mem (h : IsCreated current path content before after)
    (hlinkless : before.IsLinkless) {node : Node}
    (hnode : before.lookup (path.destination current) = some node) : Path.dotDot ∈ path.names := by
  obtain ⟨between, hadds, hreaches, rfl⟩ := h.written
  exact hreaches.dotDot_mem hlinkless h.missing hnode

end IsCreated

/-- What becomes of a file to be created: it is there, or there are only more directories. -/
def CreateOutcome (current : Location) (path : Path) (isContent : List UInt8 → Prop) (before : Tree)
    (outcome : Report × Tree) : Prop :=
  if outcome.1.failure = none then
    ∃ content, isContent content ∧ IsCreated current path content before outcome.2
  else Tree.AddsDirectories (path.PassesThrough current) before outcome.2

variable {tree between : Tree} {current : Location} {path : Path} {kind : Kind} {text : String}

theorem MakesParents.adds (h : MakesParents current path tree between)
    (hlinkless : tree.IsLinkless) :
    Tree.AddsDirectories (path.PassesThrough current) tree between := by
  cases h with
  | none => exact .refl tree
  | some hparent hmade =>
    have hadds := makeDirectories_adds current hlinkless hparent
    rwa [hmade] at hadds

def IsTemplate (name kindText : String) (content : List UInt8) : Prop :=
  ∃ kind text, Kind.ofText kindText = .ok kind ∧ Profile.template name kind = .ok text ∧
    content = Text.toBytes text

theorem new_outcome {project : Path} {name kindText : String} {output : Option Path}
    (hlinkless : tree.IsLinkless) :
    CreateOutcome current (output.getD (defaultPath project name)) (IsTemplate name kindText) tree
      ((new project name kindText output : InTree _) current tree) := by
  have hattempt := new_attempt tree current project name kindText output
  rw [CreateOutcome]
  generalize (new project name kindText output : InTree Report) current tree = outcome
    at hattempt ⊢
  generalize outcome.1.failure = failure, outcome.2 = after at hattempt ⊢
  cases hattempt with
  | unknownKind | invalidName | alreadyExists => exact .refl tree
  | creating _ _ _ hparent hmade =>
    have hadds := makeDirectories_adds current hlinkless hparent
    rwa [hmade] at hadds
  | writing _ _ _ hparents => exact hparents.adds hlinkless
  | created hkind htext hmissing hparents hwrite =>
    have hadds := hparents.adds hlinkless
    exact ⟨_, ⟨_, _, hkind, htext, rfl⟩, hmissing, _, hadds,
      Tree.write_eq_ok (hadds.isLinkless hlinkless) hwrite⟩

/-! ## Loading -/

theorem checked_describing {name : String} (hname : nameProblem? name = none) (kind : Kind)
    (path : Path) (notices : List Notice) :
    (checked path notices (describing name kind)).failure = none := by
  rw [checked, issues_describing hname]
  rfl

/-- The path is loaded as a profile with this name and kind, which is found to be valid. -/
structure LoadsAs (tree : Tree) (current : Location) (path : Path) (name : String) (kind : Kind) :
    Prop where
  loads : ∃ records profile, ((load path : InTree _) current tree).1 = (records, .ok profile) ∧
    profile.name = name ∧ profile.abi = kind
  checks : ((run (.check path) : InTree Report) current tree).1.failure = none

/-- A file with the text of a new profile is loaded as that profile. -/
theorem loadsAs_of_template {location : Location} {name : String}
    (htemplate : Profile.template name kind = .ok text)
    (h : tree.resolve .look current path =
      .ok (.present location (.file (Text.toBytes text)))) :
    LoadsAs tree current path name kind := by
  obtain ⟨hname, rfl⟩ := template_eq_ok.mp htemplate
  have hload := load_of_leadsToFile ⟨location, h⟩
  rw [ofBytes_toToml] at hload
  refine ⟨⟨_, describing name kind, hload, rfl, rfl⟩, ?_⟩
  rw [run, check, InTree.bind_apply, hload]
  dsimp only [InTree.pure_apply]
  exact checked_describing hname kind path _

end AbiFacts.CommandLine
