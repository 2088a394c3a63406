import AbiFacts.CommandLine.Run
import AbiFacts.Proofs.Files.Barriers
import AbiFacts.Proofs.Profile.Listings
import AbiFacts.Proofs.Profile.Templates

/-! # Listing the profiles of a project

The list has an entry for each profile that is discovered, in the order of discovery, and each entry
tells what is loaded from its own file. So a file that is bad in any way changes no entry but its
own (`listing_shows_every_profile`).
-/
namespace AbiFacts

open Files Profile

namespace Profile

/-! ## Behind barriers -/

section
variable (barriers : Barriers) (tree : Tree) (current : Location)

/-- What a file is loaded as, or the error that is met in loading it. -/
def loadedBehind (path : Path) : Except LoadError Profile :=
  ((load path : Barred barriers _) current tree).1.2

def foundBehind (project : Path) : Except SystemError (List (String × Path)) :=
  ((discover project : Barred barriers _) current tree).1.2

end

section
variable {barriers others : Barriers} {tree other : Tree} {current location : Location}
variable {project path : Path} {found files : List (String × Path)}

theorem load_behind (barriers : Barriers) (tree : Tree) (current : Location) (path : Path) :
    ∃ records, (load path : Barred barriers _) current tree =
      ((records, loadedBehind barriers tree current path), tree) := by
  refine ⟨((load path : Barred barriers _) current tree).1.1, Prod.ext rfl ?_⟩
  rw [load, Barred.bind_apply, Barred.pathExists_apply]
  cases barriers.pathExists tree current path with
  | false => rfl
  | true =>
    rw [if_pos rfl, Barred.bind_apply, Barred.read_apply]
    cases barriers.read tree current path <;> rfl

/-- What is loaded is settled by what is found at the path and read there. -/
theorem loadedBehind_eq : loadedBehind barriers tree current path =
    if barriers.pathExists tree current path then
      match barriers.read tree current path with
      | .error e => .error (.unreadable (.system e))
      | .ok content => ofBytes content
    else .error (.notFound path) := by
  rw [loadedBehind, load, Barred.bind_apply, Barred.pathExists_apply]
  cases barriers.pathExists tree current path with
  | false => rfl
  | true =>
    rw [if_pos rfl, if_pos rfl, Barred.bind_apply, Barred.read_apply]
    cases barriers.read tree current path <;> rfl

theorem discover_behind (barriers : Barriers) (tree : Tree) (current : Location) (project : Path) :
    ∃ records, (discover project : Barred barriers _) current tree =
      ((records, foundBehind barriers tree current project), tree) := by
  refine ⟨((discover project : Barred barriers _) current tree).1.1, Prod.ext rfl ?_⟩
  rw [discover, Barred.bind_apply, Barred.isDirectory_apply]
  cases barriers.isDirectory tree current (directoryOf project) with
  | false => rfl
  | true =>
    rw [if_pos rfl, Barred.bind_apply, Barred.list_apply]
    cases barriers.list tree current (directoryOf project) <;> rfl

theorem foundBehind_eq : foundBehind barriers tree current project =
    if barriers.isDirectory tree current (directoryOf project) then
      filesAmong (directoryOf project) <$> barriers.list tree current (directoryOf project)
    else .ok [] := by
  rw [foundBehind, discover, Barred.bind_apply, Barred.isDirectory_apply]
  cases barriers.isDirectory tree current (directoryOf project) with
  | false => rfl
  | true =>
    rw [if_pos rfl, if_pos rfl, Barred.bind_apply, Barred.list_apply]
    cases barriers.list tree current (directoryOf project) <;> rfl

/-- What is found in a directory behind barriers are the profile files in it. -/
theorem listsProfiles_of_foundBehind
    (h : barriers.isDirectory tree current (directoryOf project) = true)
    (hfound : foundBehind barriers tree current project = .ok found) :
    ∃ location, tree.resolve .look current (directoryOf project) =
        .ok (.present location .directory) ∧ ListsProfiles tree project location found := by
  rw [foundBehind_eq, if_pos h, Decode.map_eq_ok] at hfound
  rcases hfound with ⟨entries, hentries, rfl⟩
  rw [Barriers.isDirectory, Bool.and_eq_true] at h
  rcases Tree.isDirectory_iff.mp h.2 with ⟨location, hresolve⟩
  refine ⟨location, hresolve, ?_⟩
  rcases Tree.list_of_directory hresolve with ⟨listed, hlist, hdistinct, hfiles⟩
  rw [Barriers.list] at hentries
  split at hentries
  case h_1 => cases hentries
  case h_2 =>
    rw [hlist] at hentries
    cases hentries
    refine ⟨filesAmong_ordered _ hdistinct, fun stem path => ?_⟩
    rw [mem_filesAmong, hfiles]

theorem ListsProfiles.sameShape (h : ListsProfiles tree project location found)
    (hshape : tree.SameShape other) : ListsProfiles other project location found := by
  refine ⟨h.ordered, fun stem path => ?_⟩
  rw [h.mem_iff, hshape.isFile]

/-- In trees of the same shape the same files are found, whatever they hold. -/
theorem found_eq_of_sameShape (hshape : tree.SameShape other)
    (hhidden : others.hidden (directoryOf project) = barriers.hidden (directoryOf project))
    (hfound : foundBehind barriers tree current project = .ok found)
    (hfiles : foundBehind others other current project = .ok files) : files = found := by
  have hdir : others.isDirectory other current (directoryOf project) =
      barriers.isDirectory tree current (directoryOf project) := by
    rw [Barriers.isDirectory, Barriers.isDirectory, hhidden, hshape.isDirectory]
  cases hthere : barriers.isDirectory tree current (directoryOf project) with
  | false =>
    rw [foundBehind_eq, hdir, hthere, if_neg Bool.false_ne_true] at hfiles
    rw [foundBehind_eq, hthere, if_neg Bool.false_ne_true] at hfound
    exact (Except.ok.inj hfiles).symm.trans (Except.ok.inj hfound)
  | true =>
    rcases listsProfiles_of_foundBehind hthere hfound with ⟨location, hresolve, hlists⟩
    rcases listsProfiles_of_foundBehind (hdir.trans hthere) hfiles with ⟨place, hplace, hlisted⟩
    have hsame : place = location := by
      have heq := hplace.symm.trans (hshape.resolve_directory.mpr hresolve)
      simpa using heq
    subst hsame
    exact hlisted.unique (hlists.sameShape hshape)

/-- What is loaded from a file depends on this file alone. -/
theorem loaded_eq_of_sameShape (hshape : tree.SameShape other)
    (hhidden : others.hidden path = barriers.hidden path)
    (hread : others.read other current path = barriers.read tree current path) :
    loadedBehind others other current path = loadedBehind barriers tree current path := by
  have hexists : others.pathExists other current path = barriers.pathExists tree current path := by
    rw [Barriers.pathExists, Barriers.pathExists, hhidden, hshape.pathExists]
  rw [loadedBehind_eq, loadedBehind_eq, hexists, hread]

end

end Profile

namespace CommandLine

/-! ## Entries -/

def noProfiles (project : Path) : String :=
  "No ABI profiles found in " ++ (directoryOf project).shown ++ "\n"

theorem head?_noProfiles (project : Path) : (noProfiles project).toList.head? = some 'N' := by
  unfold noProfiles
  simp

/-- What is told of a file: the kind that its profile selects, or the error. -/
def verdict : Except LoadError Profile → String
  | .ok profile => profile.abi.name
  | .error e => "(invalid: " ++ e.message ++ ")"

/-- The entry of a file: two blanks, the stem with blanks after it up to 25 characters, a blank,
what is told of the file, and a line feed. -/
def entryOf (stem : String) (loaded : Except LoadError Profile) : String :=
  "  " ++ stem ++ String.ofList (List.replicate (25 - stem.length) ' ') ++ " " ++ verdict loaded ++
    "\n"

theorem row_eq (width : Nat) (left right : String) :
    row width left right =
      "  " ++ left ++ String.ofList (List.replicate (width - left.length) ' ') ++ " " ++ right ++
        "\n" := by
  rw [row, padded, ← String.append_assoc]

theorem head?_entryOf (stem : String) (loaded : Except LoadError Profile) :
    (entryOf stem loaded).toList.head? = some ' ' := by
  simp [entryOf]

/-- Entries begin with a blank and the line without profiles does not. -/
theorem join_entries_ne (project : Path) (loaded : Path → Except LoadError Profile)
    (file : String × Path) (found : List (String × Path)) :
    String.join ((file :: found).map fun file => entryOf file.1 (loaded file.2)) ≠
      noProfiles project := by
  intro heq
  have hfirst := congrArg (fun text : String => text.toList.head?) heq
  simp [head?_entryOf, head?_noProfiles] at hfirst

/-- A list of all profiles that are found, each with what is loaded from it. -/
structure ListsEvery (project : Path) (found : List (String × Path))
    (loaded : Path → Except LoadError Profile) (report : Report) : Prop where
  failure : report.failure = none
  exitCode : report.exitCode = 0
  none_iff : report.output = noProfiles project ↔ found = []
  entries : found ≠ [] →
    report.output = String.join (found.map fun file => entryOf file.1 (loaded file.2))

section
variable {barriers : Barriers} {tree : Tree} {current : Location} {project : Path}
variable {found : List (String × Path)}

theorem listed_behind (barriers : Barriers) (tree : Tree) (current : Location)
    (file : String × Path) : ((listed file : Barred barriers _) current tree).1.2 =
        entryOf file.1 (loadedBehind barriers tree current file.2) ∧
      ((listed file : Barred barriers _) current tree).2 = tree := by
  rcases load_behind barriers tree current file.2 with ⟨records, hload⟩
  rw [listed, Barred.bind_apply, hload]
  cases loadedBehind barriers tree current file.2 with
  | error e => exact ⟨row_eq 25 file.1 _, rfl⟩
  | ok profile => exact ⟨row_eq 25 file.1 _, rfl⟩

theorem profiles_behind (h : foundBehind barriers tree current project = .ok found) :
    ListsEvery project found (loadedBehind barriers tree current)
        ((profiles project : Barred barriers Report) current tree).1 ∧
      ((profiles project : Barred barriers Report) current tree).2 = tree := by
  rcases discover_behind barriers tree current project with ⟨records, hdiscover⟩
  rw [profiles, Barred.bind_apply, hdiscover, h]
  cases found with
  | nil => exact ⟨⟨rfl, rfl, iff_of_true rfl rfl, fun hne => absurd rfl hne⟩, rfl⟩
  | cons file rest =>
    have hlisted := Barred.mapM_apply (f := (listed : _ → Barred barriers _))
      (fun file => Prod.ext rfl (listed_behind barriers tree current file).2) (file :: rest)
    dsimp only
    rw [Barred.bind_apply, hlisted]
    have hlines : ((file :: rest).map fun file =>
        ((listed file : Barred barriers _) current tree).1).map (·.2) =
          (file :: rest).map fun file =>
            entryOf file.1 (loadedBehind barriers tree current file.2) := by
      rw [List.map_map]
      exact List.map_congr_left fun file _ => (listed_behind barriers tree current file).1
    have houtput := congrArg String.join hlines
    refine ⟨⟨rfl, rfl, iff_of_false ?_ (List.cons_ne_nil file rest), fun _ => houtput⟩, rfl⟩
    exact fun heq => join_entries_ne project _ file rest (houtput.symm.trans heq)

end

/-- The list of profiles has an entry for each file that is discovered, in order, with its stem and
with the kind of the profile or the error that is met in loading it, and there is no other output
unless nothing is discovered. This holds as well where files are hidden or locked. In trees of the
same shape the same files are listed, and the entry of a file that is read alike is the same,
whatever has become of the others. -/
theorem listing_shows_every_profile :
    (∀ barriers tree current directory found,
      let project := Option.getD directory (Location.path current)
      let outcome := (run (.profiles directory) : Barred barriers Report) current tree
      foundBehind barriers tree current project = .ok found →
        ListsEvery project found (loadedBehind barriers tree current) outcome.1 ∧
          outcome.2 = tree) ∧
    (∀ tree current directory,
      let project := Option.getD directory (Location.path current)
      ((run (.profiles directory) : InTree Report) current tree =
        (run (.profiles directory) : Barred .clear Report) current tree) ∧
      ((discover project : InTree _) current tree).1.2 =
        foundBehind .clear tree current project ∧
      ∀ path, ((load path : InTree _) current tree).1.2 =
        loadedBehind .clear tree current path) ∧
    ∀ barriers others tree other current project found files,
      Tree.SameShape tree other →
      others.hidden (directoryOf project) = barriers.hidden (directoryOf project) →
      foundBehind barriers tree current project = .ok found →
      foundBehind others other current project = .ok files →
        files = found ∧ ∀ file ∈ found,
          others.hidden file.2 = barriers.hidden file.2 →
          others.read other current file.2 = barriers.read tree current file.2 →
            entryOf file.1 (loadedBehind others other current file.2) =
              entryOf file.1 (loadedBehind barriers tree current file.2) := by
  refine ⟨?_, fun tree current directory => ?_, ?_⟩
  · intro barriers tree current directory found
    cases directory with
    | none => exact profiles_behind
    | some directory => exact profiles_behind
  · cases directory with
    | none => exact ⟨rfl, rfl, fun _ => rfl⟩
    | some directory => exact ⟨rfl, rfl, fun _ => rfl⟩
  · intro barriers others tree other current project found files hshape hdirectory hfound hfiles
    refine ⟨found_eq_of_sameShape hshape hdirectory hfound hfiles, ?_⟩
    intro file _ hhidden hread
    rw [loaded_eq_of_sameShape hshape hhidden hread]

/-- A profile beside files that are not text, hold nothing or are locked. -/
def badNeighbours : Tree :=
  (default : Tree)
    |>.put [Name.ofString "abi"] .directory
    |>.put [Name.ofString "abi", Name.ofString "bytes.abi.toml"] (.file [0xFF])
    |>.put [Name.ofString "abi", Name.ofString "empty.abi.toml"] (.file [])
    |>.put [Name.ofString "abi", Name.ofString "good.abi.toml"]
      (.file (Text.toBytes (Profile.toToml { name := "good", abi := .ios })))
    |>.put [Name.ofString "abi", Name.ofString "locked.abi.toml"] (.file [])

def oneLock : Barriers where
  hidden _ := false
  locked path :=
    if path = .ofString "/abi/locked.abi.toml" then
      some (.other "Permission denied (os error 13)")
    else none

def fourFiles : List (String × Path) :=
  ["bytes", "empty", "good", "locked"].map fun stem => (stem, .ofString ("/abi/" ++ fileName stem))

/-- The four files are found in a directory that lists them in their order. -/
theorem foundBehind_fourFiles {barriers : Barriers} {tree : Tree}
    (hdir : barriers.isDirectory tree [] (directoryOf (.ofString "/")) = true)
    (hlist : barriers.list tree [] (directoryOf (.ofString "/")) =
      .ok (fourFiles.map fun file => ⟨Name.ofString (fileName file.1), true⟩)) :
    foundBehind barriers tree [] (.ofString "/") = .ok fourFiles := by
  have hfiles : ((fourFiles.map fun file => ⟨Name.ofString (fileName file.1), true⟩).map
      (discovered (directoryOf (.ofString "/")))).filterMap (·.2) = fourFiles := by decide +kernel
  have hsorted : fourFiles.mergeSort (fun a b => a.1 ≤ b.1) = fourFiles :=
    List.mergeSort_of_pairwise (by decide +kernel)
  rw [foundBehind_eq, if_pos hdir, hlist]
  exact congrArg Except.ok (by rw [filesAmong, hfiles, hsorted])

/-- Each of the files has its entry. The entry of the profile is the same when nothing is locked and
another file holds other bytes. -/
theorem good_profile_beside_bad_ones :
    let outcome := (run (.profiles (some (.ofString "/"))) : Barred oneLock Report) [] badNeighbours
    let others := badNeighbours.put [Name.ofString "abi", Name.ofString "bytes.abi.toml"] (.file [])
    outcome.2 = badNeighbours ∧ outcome.1.failure = none ∧
    outcome.1.output =
      "  bytes                     (invalid: I/O error: stream did not contain valid UTF-8)\n" ++
      "  empty                     (invalid: TOML parse error: missing field `name`)\n" ++
      "  good                      ios\n" ++
      "  locked                    (invalid: I/O error: Permission denied (os error 13))\n" ∧
    entryOf "good" (loadedBehind .clear others [] (.ofString "/abi/good.abi.toml")) =
      "  good                      ios\n" := by
  intro outcome others
  rcases listing_shows_every_profile with ⟨hlists, _, hsame⟩
  have hfound : foundBehind oneLock badNeighbours [] (.ofString "/") = .ok fourFiles :=
    foundBehind_fourFiles (by decide +kernel) (by decide +kernel)
  have hfiles : foundBehind .clear others [] (.ofString "/") = .ok fourFiles :=
    foundBehind_fourFiles (by decide +kernel) (by decide +kernel)
  have hbytes : badNeighbours.lookup [Name.ofString "abi", Name.ofString "bytes.abi.toml"] =
      some (.file [0xFF]) := by decide +kernel
  have hshape : badNeighbours.SameShape others := .of_put (by decide +kernel) hbytes []
  rcases hlists oneLock badNeighbours [] (some (.ofString "/")) fourFiles hfound with
    ⟨hlisted, hquiet⟩
  have hgood := (hsame oneLock .clear badNeighbours others [] (.ofString "/") fourFiles fourFiles
    hshape rfl hfound hfiles).2 ("good", .ofString "/abi/good.abi.toml") (by decide +kernel) rfl
    (by decide +kernel)
  have hentry : entryOf "good" (loadedBehind oneLock badNeighbours []
      (.ofString "/abi/good.abi.toml")) = "  good                      ios\n" := by
    decide +kernel
  refine ⟨hquiet, hlisted.failure, (hlisted.entries (by decide)).trans ?_, hgood.trans hentry⟩
  decide +kernel

end CommandLine
end AbiFacts
