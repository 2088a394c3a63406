import AbiFacts.Proofs.CommandLine.Creating
import AbiFacts.Proofs.Profile.Discovery
import AbiFacts.Proofs.Profile.Validation

/-! # New profiles are discovered

A new profile without a path of its own becomes the file of its name in the directory of the
project. From then on it is discovered under that name, and the other profiles as before
(`created_is_discovered_under_its_name`).
-/
namespace AbiFacts.CommandLine

open Files Profile

/-! ## The path of a new profile -/

theorem isPlain_fileName (name : String) : (Name.ofString (fileName name)).IsPlain := by
  have hlong : 2 < (Name.ofString (fileName name)).length := by
    rw [Name.ofString, fileName, Text.toBytes_append, List.length_append]
    exact Nat.lt_add_left _ (by decide)
  refine ⟨?_, ?_, ?_⟩ <;>
  · intro heq
    rw [heq] at hlong
    revert hlong
    decide

theorem isEntry_directoryOf (project : Path) :
    (directoryOf project).IsEntry project (Name.ofString "abi") :=
  Path.isEntry_join project (by decide) (by decide)

theorem slash_notMem_fileName {name : String} (h : IsUsable name) :
    Path.slash ∉ Name.ofString (fileName name) := by
  apply Name.slash_notMem_ofString
  rw [fileName, String.toList_append, List.mem_append, not_or]
  exact ⟨fun hslash => h.plain _ hslash (by simp [IsBarred]), by decide⟩

theorem isEntry_defaultPath {name : String} (h : IsUsable name) (project : Path) :
    (defaultPath project name).IsEntry (directoryOf project) (Name.ofString (fileName name)) :=
  Path.isEntry_join _ (isPlain_fileName name).ne_nil (slash_notMem_fileName h)

/-! ## Discovery before and after -/

section
variable {before after : Tree} {current directory : Location} {project : Path} {name : String}
variable {content : List UInt8}

/-- One more profile file is discovered in its place. -/
theorem inserts_of_lookup {found more : List (String × Path)}
    (hbefore : ListsProfiles before project directory found)
    (hafter : ListsProfiles after project directory more) (hname : name ≠ "")
    (hmissing : before.lookup (directory ++ [Name.ofString (fileName name)]) = none)
    (hfile : after.lookup (directory ++ [Name.ofString (fileName name)]) = some (.file content))
    (hsame : ∀ stem content, stem ≠ name →
      (after.lookup (directory ++ [Name.ofString (fileName stem)]) = some (.file content) ↔
        before.lookup (directory ++ [Name.ofString (fileName stem)]) = some (.file content))) :
    Inserts (.ok found) (.ok more) (name, defaultPath project name) := by
  refine inserts_of_mem_iff hbefore.ordered hafter.ordered ?_ fun (stem, path) => ?_
  · exact (hafter.mem_iff _ _).mpr ⟨⟨content, hfile⟩, hname, rfl⟩
  · rw [hbefore.mem_iff, hafter.mem_iff]
    by_cases hstem : stem = name
    · subst hstem
      simp [hmissing]
    · simp [hstem, hsame]

/-- The directory that the path leads to afterwards was found before, or is new. -/
def IsFoundOrNew (before : Tree) (current : Location) (project : Path) (directory : Location) :
    Prop :=
  before.resolve .look current (directoryOf project) = .ok (.present directory .directory) ∨
    before.lookup directory = none

/-- What is discovered before are the profile files of the directory, none if it is new. -/
theorem exists_listsProfiles (h : IsFoundOrNew before current project directory)
    (hretains : Tree.Retains before after)
    (hafter : after.resolve .look current (directoryOf project) =
      .ok (.present directory .directory)) :
    ∃ found, ((discover project : InTree _) current before).1.2 = .ok found ∧
      ListsProfiles before project directory found := by
  by_cases hdir : before.isDirectory current (directoryOf project) = true
  · obtain ⟨location, hresolve⟩ := Tree.isDirectory_iff.mp hdir
    obtain rfl := Tree.location_eq_of_retains hretains hresolve hafter
    exact discover_listsProfiles hresolve
  · obtain hresolve | hnone := h
    · exact absurd (Tree.isDirectory_iff.mpr ⟨_, hresolve⟩) hdir
    · exact ⟨[], discover_of_not_isDirectory (by simpa using hdir),
        listsProfiles_nil (Tree.lookup_append_of_none hnone)⟩

/-- Below a project that is there, or for a directory that was there itself, nothing else comes to
be where its path leads. -/
theorem isFoundOrNew {between : Tree}
    (hadds : before.AddsParents current (defaultPath project name) between)
    (husable : IsUsable name)
    (hdir : between.resolve .look current (directoryOf project) =
      .ok (.present directory .directory))
    (h : before.isDirectory current project = true ∨
      before.isDirectory current (directoryOf project) = true ∨ before.lookup directory = none) :
    IsFoundOrNew before current project directory := by
  obtain hproject | hfound | hnone := h
  · by_cases hnone : before.lookup directory = none
    · exact .inr hnone
    have hsame : ∀ location, between.lookup location = before.lookup location := by
      intro location
      obtain heq | rfl := hadds.eq_or_eq (isEntry_defaultPath husable project)
        (isEntry_directoryOf project) hproject hdir location
      · exact heq
      · exact (hadds location).resolve_right fun hmade => hnone hmade.1
    have hretains : Tree.Retains between before :=
      fun location node hnode => .inl ((hsame location).symm.trans hnode)
    exact .inl (Tree.resolve_look_mono hretains hdir
      (hretains.directory (Tree.holds_of_resolve hdir)))
  · obtain ⟨location, hresolve⟩ := Tree.isDirectory_iff.mp hfound
    obtain rfl := Tree.location_eq_of_retains hadds.retains hresolve hdir
    exact .inl hresolve
  · exact .inr hnone

/-- Unless a link stands in the place of the profile, nothing does if its path is not found. -/
theorem lookup_eq_none_of_missing (h : IsFoundOrNew before current project directory)
    (husable : IsUsable name) (hpath : (defaultPath project name).IsUsable)
    (hlength : (Name.ofString (fileName name)).length ≤ maxName)
    (hnolink : ∀ target,
      before.lookup (directory ++ [Name.ofString (fileName name)]) ≠ some (.link target))
    (hmissing : before.pathExists current (defaultPath project name) = false) :
    before.lookup (directory ++ [Name.ofString (fileName name)]) = none := by
  obtain hfound | hnew := h
  · rw [Option.eq_none_iff_forall_ne_some]
    intro node hnode
    have hthere := Tree.resolve_look_entry (isEntry_defaultPath husable project)
      (isEntry_directoryOf project).endsInSlash hpath (isPlain_fileName name) hlength hfound hnode
      fun target hlink => hnolink target (hlink ▸ hnode)
    rw [Tree.pathExists, hthere] at hmissing
    cases hmissing
  · exact Tree.lookup_append_of_none hnew _

end

/-- A new profile without a path of its own is a file in the directory of the project, unless a link
stands in its place, and is loaded with its name and kind. If the project or that directory was
there before, or the directory is new, then nothing was in the place of the file, and the profile is
discovered among those that were discovered before, at the place of its name. -/
theorem created_is_discovered_under_its_name (tree : Tree) (current : Location) (project : Path)
    (name kindText : String)
    (hsucceeds : ((new project name kindText none : InTree Report) current tree).1.failure =
      none) :
    let path := defaultPath project name
    let file := Name.ofString (fileName name)
    let after := ((new project name kindText none : InTree Report) current tree).2
    ∃ kind text directory, Kind.ofText kindText = .ok kind ∧
      Profile.template name kind = .ok text ∧
      after.resolve .look current (directoryOf project) = .ok (.present directory .directory) ∧
      ((∀ target, tree.lookup (directory ++ [file]) ≠ some (.link target)) →
        after.resolve .look current path =
          .ok (.present (directory ++ [file]) (.file (Text.toBytes text))) ∧
        LoadsAs after current path name kind ∧
        (tree.isDirectory current project = true ∨
            tree.isDirectory current (directoryOf project) = true ∨
            tree.lookup directory = none →
          tree.lookup (directory ++ [file]) = none ∧
          Inserts ((discover project : InTree _) current tree).1.2
            ((discover project : InTree _) current after).1.2 (name, path))) := by
  have hattempt := new_attempt tree current project name kindText none
  rw [hsucceeds] at hattempt
  intro path file after
  change Attempt current path name kindText tree none after at hattempt
  generalize after = after at hattempt ⊢
  cases hattempt with
  | @created kind text between _ hkind htext hmissing hparents hwrite =>
    have husable : IsUsable name := nameProblem?_eq_none.mp (template_eq_ok.mp htext).1
    have hentry := isEntry_defaultPath husable project
    have habove := isEntry_directoryOf project
    have hplain := isPlain_fileName name
    have hadds := hparents.addsParents
    obtain ⟨hpath, hlength, directory, hdir, hput⟩ :=
      Tree.write_entry hentry habove.endsInSlash (by simp [habove.names]) hplain hwrite
    have hretains : Tree.Retains between after := Tree.write_retains hwrite
    have hdir' : after.resolve .look current (directoryOf project) =
        .ok (.present directory .directory) :=
      Tree.resolve_look_mono hretains hdir (hretains.directory (Tree.holds_of_resolve hdir))
    refine ⟨kind, text, directory, hkind, htext, hdir', fun hnolink => ?_⟩
    have hwritten := hput fun target hlink =>
      hnolink target ((Tree.AddsDirectories.lookup_eq_some_iff hadds (by simp)).mp hlink)
    have hfile := (hwritten.lookup (directory ++ [file])).trans (if_pos rfl)
    have hresolve := Tree.resolve_look_entry hentry habove.endsInSlash hpath hplain hlength hdir'
      hfile (by simp)
    refine ⟨hresolve, loadsAs_of_template htext hresolve, fun hwhere => ?_⟩
    have hplace := isFoundOrNew hadds husable hdir hwhere
    have hnone := lookup_eq_none_of_missing hplace husable hpath hlength hnolink hmissing
    obtain ⟨found, hfound, hbefore⟩ :=
      exists_listsProfiles hplace (hadds.retains.trans hretains) hdir'
    obtain ⟨more, hmore, hafter⟩ := discover_listsProfiles hdir'
    rw [hfound, hmore]
    refine ⟨hnone, inserts_of_lookup hbefore hafter husable.nonempty hnone hfile ?_⟩
    intro stem content hstem
    have hother : directory ++ [Name.ofString (fileName stem)] ≠ directory ++ [file] := by
      intro heq
      have hnames := List.singleton_inj.mp (List.append_cancel_left heq)
      exact hstem (fileName_injective (Name.ofString_injective hnames))
    rw [hwritten.lookup, if_neg hother,
      Tree.AddsDirectories.lookup_eq_some_iff hadds (by simp)]

/-- A project with profiles whose stems are much like the name `x`, and a link. -/
def similarStems : Tree :=
  (default : Tree)
    |>.put [Name.ofString "abi"] .directory
    |>.put [Name.ofString "abi", Name.ofString "x.abi.toml.abi.toml"] (.file [])
    |>.put [Name.ofString "abi", Name.ofString "X.abi.toml"] (.file [])
    |>.put [Name.ofString "abi", Name.ofString "a.abi.toml"] (.link (.ofString "X.abi.toml"))

/-- The new profile stands among the others. -/
theorem created_among_similar_stems :
    let found := ((discover (.ofString "/") : InTree _) [] similarStems).1.2
    let made := (new (.ofString "/") "x" "ios" none : InTree Report) [] similarStems
    made.1.failure = none ∧
    LoadsAs made.2 [] (.ofString "/abi/x.abi.toml") "x" .ios ∧
    Inserts found ((discover (.ofString "/") : InTree _) [] made.2).1.2
      ("x", .ofString "/abi/x.abi.toml") ∧
    ∃ others, found = .ok others ∧ ("X", .ofString "/abi/X.abi.toml") ∈ others ∧
      ("x.abi.toml", .ofString "/abi/x.abi.toml.abi.toml") ∈ others := by
  intro found made
  have hsucceeds : made.1.failure = none := by decide +kernel
  obtain ⟨kind, text, directory, hkind, -, hdir, hrest⟩ :=
    created_is_discovered_under_its_name similarStems [] (.ofString "/") "x" "ios" hsucceeds
  have hplace : made.2.resolve .look [] (directoryOf (.ofString "/")) =
      .ok (.present [Name.ofString "abi"] .directory) := by decide +kernel
  obtain rfl : directory = [Name.ofString "abi"] := by
    rw [hplace] at hdir
    cases hdir
    rfl
  obtain rfl : kind = .ios := by
    cases hkind
    rfl
  have hnone : similarStems.lookup [Name.ofString "abi", Name.ofString (fileName "x")] = none := by
    decide +kernel
  obtain ⟨-, hloads, hinserts⟩ := hrest fun target => by simp [hnone]
  refine ⟨hsucceeds, hloads, (hinserts (.inl (by decide +kernel))).2, ?_⟩
  have hbefore : similarStems.resolve .look [] (directoryOf (.ofString "/")) =
      .ok (.present [Name.ofString "abi"] .directory) := by decide +kernel
  obtain ⟨others, hfound, hlists⟩ := discover_listsProfiles hbefore
  exact ⟨others, hfound,
    (hlists.mem_iff _ _).mpr ⟨⟨[], by decide +kernel⟩, by decide, by decide +kernel⟩,
    (hlists.mem_iff _ _).mpr ⟨⟨[], by decide +kernel⟩, by decide, by decide +kernel⟩⟩

/-- A link in the place of the new profile, to a place where nothing is. -/
def linkedPlace : Tree :=
  (default : Tree)
    |>.put [Name.ofString "abi"] .directory
    |>.put [Name.ofString "abi", Name.ofString "x.abi.toml"] (.link (.ofString "elsewhere.txt"))

/-- A file that is created through a link is not discovered. -/
theorem created_through_a_link_is_not_discovered :
    let made := (new (.ofString "/") "x" "ios" none : InTree Report) [] linkedPlace
    made.1.failure = none ∧
    ¬ Inserts ((discover (.ofString "/") : InTree _) [] linkedPlace).1.2
      ((discover (.ofString "/") : InTree _) [] made.2).1.2 ("x", .ofString "/abi/x.abi.toml") := by
  intro made
  refine ⟨by decide +kernel, ?_⟩
  rintro ⟨earlier, later, -, hafter, -⟩
  have hplace : made.2.resolve .look [] (directoryOf (.ofString "/")) =
      .ok (.present [Name.ofString "abi"] .directory) := by decide +kernel
  obtain ⟨found, hfound, hlists⟩ := discover_listsProfiles hplace
  rw [hfound] at hafter
  cases hafter
  obtain ⟨⟨content, hfile⟩, -⟩ := (hlists.mem_iff _ _).mp
    (List.mem_append_right earlier List.mem_cons_self)
  have hlink : made.2.lookup [Name.ofString "abi", Name.ofString (fileName "x")] =
      some (.link (.ofString "elsewhere.txt")) := by decide +kernel
  rw [List.singleton_append, hlink] at hfile
  cases hfile

end AbiFacts.CommandLine
