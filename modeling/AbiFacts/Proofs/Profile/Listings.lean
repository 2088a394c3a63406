import AbiFacts.Proofs.Files.Components
import AbiFacts.Proofs.Profile.Discovery
import AbiFacts.Proofs.Text.ByteOrder

/-! # What discovery finds

Discovery finds the profile files of a project, each once and in the order of the bytes of their
stems, however the directory is listed (`discovery_finds_exactly_the_profiles`).
-/
namespace AbiFacts

open Files

/-! ## Other orders of a directory -/

namespace Files

/-- Computations on a file tree that lists its directories in another order. -/
def Reordered (_order : List DirectoryEntry → List DirectoryEntry) (α : Type) : Type := InTree α

namespace Reordered

variable {order : List DirectoryEntry → List DirectoryEntry} {α β : Type}
variable {current : Location} {tree : Tree}

instance : Monad (Reordered order) := inferInstanceAs (Monad InTree)

instance : FileAccess (Reordered order) where
  currentDirectory := (FileAccess.currentDirectory : InTree _)
  pathExists path := (FileAccess.pathExists path : InTree _)
  isDirectory path := (FileAccess.isDirectory path : InTree _)
  read path := (FileAccess.read path : InTree _)
  list path := fun current tree => ((tree.list current path).map order, tree)
  makeDirectory path := (FileAccess.makeDirectory path : InTree _)
  write path content := (FileAccess.write path content : InTree _)

theorem bind_apply (x : Reordered order α) (f : α → Reordered order β) :
    (x >>= f) current tree = f (x current tree).1 current (x current tree).2 := rfl

theorem isDirectory_apply (path : Path) :
    (FileAccess.isDirectory path : Reordered order Bool) current tree =
      (tree.isDirectory current path, tree) := rfl

theorem list_apply (path : Path) :
    (FileAccess.list path : Reordered order _) current tree =
      ((tree.list current path).map order, tree) := rfl

end Reordered

/-! ## Names of entries -/

theorem Name.isPlain_of_isProper {name : Name} (h : name.isProper = true) : name.IsPlain := by
  simp only [Name.isProper, Bool.and_eq_true, decide_eq_true_eq] at h
  rcases h with ⟨⟨⟨⟨⟨hnil, hdot⟩, hdotDot⟩, _⟩, _⟩, _⟩
  exact ⟨hnil, hdot, hdotDot⟩

theorem Name.slash_notMem_of_isProper {name : Name} (h : name.isProper = true) :
    Path.slash ∉ name := by
  intro hmem
  simp [Name.isProper, hmem] at h

theorem Tree.isProper_of_mem_children {tree : Tree} {location : Location} {name : Name}
    {node : Node} (h : (name, node) ∈ tree.children location) : name.isProper = true := by
  have hentry := (Tree.lookup_eq_some_iff (by simp)).mp (Tree.mem_children.mp h)
  rcases tree.isTree.named _ hentry with ⟨last, hlast, hproper⟩
  have heq : name = last := by simpa using hlast
  rwa [heq]

end Files

namespace Profile

variable {tree : Tree} {current location : Location} {project : Path}

/-- There is one list of the profile files. -/
theorem ListsProfiles.unique {found others : List (String × Path)}
    (hfound : ListsProfiles tree project location found)
    (hothers : ListsProfiles tree project location others) : found = others := by
  apply eq_of_mem_iff hfound.ordered hothers.ordered
  intro (stem, path)
  rw [hfound.mem_iff, hothers.mem_iff]

section
variable {order : List DirectoryEntry → List DirectoryEntry}

theorem discover_reordered_listsProfiles (horder : ∀ entries, (order entries).Perm entries)
    (h : tree.resolve .look current (directoryOf project) = .ok (.present location .directory)) :
    ∃ found, ((discover project : Reordered order _) current tree).1.2 = .ok found ∧
      ListsProfiles tree project location found := by
  rcases Tree.list_of_directory h with ⟨entries, hlist, hdistinct, hfiles⟩
  have hdir : tree.isDirectory current (directoryOf project) = true :=
    Tree.isDirectory_iff.mpr ⟨location, h⟩
  have hreordered : (order entries).Pairwise fun a b => a.name ≠ b.name :=
    (horder entries).symm.pairwise hdistinct fun h => h.symm
  refine ⟨filesAmong (directoryOf project) (order entries), ?_, filesAmong_ordered _ hreordered, ?_⟩
  · rw [discover, Reordered.bind_apply, Reordered.isDirectory_apply, hdir, if_pos rfl,
      Reordered.bind_apply, Reordered.list_apply, hlist]
    rfl
  · intro stem path
    rw [mem_filesAmong, (horder entries).mem_iff, hfiles]

/-- The order in which the directory is listed makes no difference. -/
theorem discover_reordered (horder : ∀ entries, (order entries).Perm entries) (tree : Tree)
    (current : Location) (project : Path) :
    ((discover project : Reordered order _) current tree).1.2 =
      ((discover project : InTree _) current tree).1.2 := by
  -- In a directory both lists hold the same files in strict order, so they are one list.
  cases hdir : tree.isDirectory current (directoryOf project) with
  | false =>
    rw [discover_of_not_isDirectory hdir, discover, Reordered.bind_apply,
      Reordered.isDirectory_apply, hdir]
    rfl
  | true =>
    rcases Tree.isDirectory_iff.mp hdir with ⟨location, hresolve⟩
    rcases discover_reordered_listsProfiles horder hresolve with ⟨found, hfound, hlists⟩
    rcases discover_listsProfiles hresolve with ⟨others, hothers, hlisted⟩
    rw [hfound, hothers, hlists.unique hlisted]

end

/-! ## What is found -/

theorem ListsProfiles.mem_iff_children {found : List (String × Path)}
    (h : ListsProfiles tree project location found) (stem : String) (path : Path) :
    (stem, path) ∈ found ↔ ∃ name content, (name, .file content) ∈ tree.children location ∧
      name.text? = some (fileName stem) ∧ stem ≠ "" ∧ path = (directoryOf project).join ⟨name⟩ := by
  rw [h.mem_iff]
  constructor
  · rintro ⟨⟨content, hfile⟩, hstem, hpath⟩
    exact ⟨_, content, Tree.mem_children.mpr hfile, Text.ofBytes?_toBytes _, hstem, hpath⟩
  · rintro ⟨name, content, hchild, htext, hstem, hpath⟩
    have hname : name = Name.ofString (fileName stem) := Text.ofBytes?_eq_some_iff.mp htext
    subst hname
    exact ⟨⟨content, Tree.mem_children.mp hchild⟩, hstem, hpath⟩

theorem ListsProfiles.fileName?_of_mem {found : List (String × Path)}
    (h : ListsProfiles tree project location found) {stem : String} {path : Path}
    (hmem : (stem, path) ∈ found) : path.fileName? = some (Name.ofString (fileName stem)) := by
  rcases (h.mem_iff_children stem path).mp hmem with ⟨name, content, hchild, htext, _, rfl⟩
  have hproper := Tree.isProper_of_mem_children hchild
  have hname : name = Name.ofString (fileName stem) := Text.ofBytes?_eq_some_iff.mp htext
  rw [← hname]
  exact Path.fileName?_join _ (Name.isPlain_of_isProper hproper)
    (Name.slash_notMem_of_isProper hproper)

/-- Without a directory `abi` nothing is found. With one, each of its regular files that has a stem
before the suffix is found under the stem, in strictly increasing order of the bytes of the stems,
and the order in which the directory is listed makes no difference. -/
theorem discovery_finds_exactly_the_profiles (tree : Tree) (current : Location) (project : Path) :
    ((∀ location, tree.resolve .look current (directoryOf project) ≠
        .ok (.present location .directory)) →
      ((discover project : InTree _) current tree).1.2 = .ok []) ∧
    (∀ location, tree.resolve .look current (directoryOf project) =
        .ok (.present location .directory) →
      ∃ found, ((discover project : InTree _) current tree).1.2 = .ok found ∧
        (∀ stem path, (stem, path) ∈ found ↔
          ∃ name content, (name, .file content) ∈ tree.children location ∧
            name.text? = some (stem ++ ".abi.toml") ∧ stem ≠ "" ∧
            path = (directoryOf project).join ⟨name⟩) ∧
        (found.Pairwise fun a b => Text.toBytes a.1 < Text.toBytes b.1) ∧
        ∀ stem path, (stem, path) ∈ found →
          path.fileName? = some (Name.ofString (stem ++ ".abi.toml"))) ∧
    ∀ order : List DirectoryEntry → List DirectoryEntry,
      (∀ entries, (order entries).Perm entries) →
        ((discover project : Reordered order _) current tree).1.2 =
          ((discover project : InTree _) current tree).1.2 := by
  refine ⟨?_, ?_, fun order horder => discover_reordered horder tree current project⟩
  · intro hnone
    apply discover_of_not_isDirectory
    rw [Bool.eq_false_iff]
    intro hdir
    rcases Tree.isDirectory_iff.mp hdir with ⟨location, hresolve⟩
    exact hnone location hresolve
  · intro location hresolve
    rcases discover_listsProfiles hresolve with ⟨found, hfound, hlists⟩
    refine ⟨found, hfound, hlists.mem_iff_children, ?_, fun _ _ => hlists.fileName?_of_mem⟩
    exact hlists.ordered.imp Text.toBytes_lt_toBytes_iff.mpr

/-- Profile files with a suffix twice and without a stem, a directory and a link. -/
def mixedEntries : Tree :=
  (default : Tree)
    |>.put [Name.ofString "abi"] .directory
    |>.put [Name.ofString "abi", Name.ofString "é.abi.toml"] (.file [])
    |>.put [Name.ofString "abi", Name.ofString "x.abi.toml.abi.toml"] (.file [])
    |>.put [Name.ofString "abi", Name.ofString ".abi.toml"] (.file [])
    |>.put [Name.ofString "abi", Name.ofString "d.abi.toml"] .directory
    |>.put [Name.ofString "abi", Name.ofString "l.abi.toml"] (.link (.ofString "é.abi.toml"))

/-- The directory listed from its end. -/
theorem listed_in_reverse_finds_the_same :
    ((discover (.ofString "/none") : InTree _) [] mixedEntries).1.2 = .ok [] ∧
    ∃ found, ((discover (.ofString "/") : Reordered List.reverse _) [] mixedEntries).1.2 =
        .ok found ∧
      (found.Pairwise fun a b => Text.toBytes a.1 < Text.toBytes b.1) ∧
      ("x.abi.toml", .ofString "/abi/x.abi.toml.abi.toml") ∈ found ∧
      ("é", .ofString "/abi/é.abi.toml") ∈ found ∧ ∀ path, ("", path) ∉ found := by
  have hmissing : mixedEntries.resolve .look [] (directoryOf (.ofString "/none")) =
      .error .notFound := by decide +kernel
  have hthere : mixedEntries.resolve .look [] (directoryOf (.ofString "/")) =
      .ok (.present [Name.ofString "abi"] .directory) := by decide +kernel
  rcases discovery_finds_exactly_the_profiles mixedEntries [] (.ofString "/none") with ⟨hnone, _, _⟩
  rcases discovery_finds_exactly_the_profiles mixedEntries [] (.ofString "/") with
    ⟨_, hsome, hreordered⟩
  rcases hsome _ hthere with ⟨found, hfound, hmem, hordered, _⟩
  refine ⟨hnone (by simp [hmissing]), found, ?_, hordered, ?_, ?_, ?_⟩
  · rw [hreordered _ List.reverse_perm, hfound]
  · exact (hmem _ _).mpr ⟨Name.ofString "x.abi.toml.abi.toml", [], by decide +kernel,
      Text.ofBytes?_toBytes _, by decide, by decide +kernel⟩
  · exact (hmem _ _).mpr ⟨Name.ofString "é.abi.toml", [], by decide +kernel,
      Text.ofBytes?_toBytes _, by decide, by decide +kernel⟩
  · intro path hin
    rcases (hmem _ _).mp hin with ⟨_, _, _, _, hne, _⟩
    exact hne rfl

end Profile
end AbiFacts
