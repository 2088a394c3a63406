import AbiFacts.Profile.Files
import AbiFacts.Proofs.Files.Entries
import Mathlib.Data.List.Sort

/-! # Discovering profiles

The stem of a profile file and the name of the file determine each other. So each profile file in
the directory of a project is found once, under its stem, and the stems are in strictly increasing
order however the directory is listed (`discover_listsProfiles`).
-/
namespace AbiFacts

open Files

namespace Profile

/-! ## Stems -/

theorem stem?_eq_some {text stem : String} : stem? text = some stem ↔ text = fileName stem := by
  rw [stem?, fileName]
  constructor
  · intro h
    obtain ⟨hsuffix, heq⟩ := Option.ite_none_right_eq_some.mp h
    cases heq
    rw [← String.toList_inj, String.toList_append, String.toList_ofList, ← hsuffix,
      List.take_append_drop]
  · rintro rfl
    have hlength : (stem ++ fileSuffix).toList.length - fileSuffix.length =
        stem.toList.length := by
      rw [String.toList_append, List.length_append, String.length_toList, String.length_toList,
        Nat.add_sub_cancel]
    rw [hlength, String.toList_append, List.drop_left, if_pos rfl, List.take_left,
      String.ofList_toList]

theorem fileName_injective {first second : String} (h : fileName first = fileName second) :
    first = second := by
  have hstem := stem?_eq_some.mpr h
  rw [stem?_eq_some.mpr rfl] at hstem
  exact Option.some.inj hstem

/-- An entry is discovered under a stem exactly if it is the file with the name of that stem. -/
theorem discovered_eq_some {directory : Path} {entry : DirectoryEntry} {stem : String}
    {path : Path} : (discovered directory entry).2 = some (stem, path) ↔
      entry = ⟨Name.ofString (fileName stem), true⟩ ∧ stem ≠ "" ∧
        path = directory.join (.ofString (fileName stem)) := by
  obtain ⟨name, isFile⟩ := entry
  cases isFile with
  | false => simp [discovered]
  | true =>
    rw [discovered, Bool.not_true, if_neg Bool.false_ne_true]
    cases htext : name.text? with
    | none =>
      have hother : name ≠ Name.ofString (fileName stem) := by
        rintro rfl
        rw [Name.text?, Name.ofString, Text.ofBytes?_toBytes] at htext
        cases htext
      simp [hother]
    | some text =>
      obtain rfl := Text.ofBytes?_eq_some_iff.mp htext
      have hname : (⟨Text.toBytes text, true⟩ : DirectoryEntry) =
          ⟨Name.ofString (fileName stem), true⟩ ↔ stem? text = some stem := by
        rw [stem?_eq_some, DirectoryEntry.mk.injEq]
        exact ⟨fun h => Name.ofString_injective h.1, fun h => ⟨congrArg Name.ofString h, rfl⟩⟩
      rw [hname]
      cases hstem : stem? text with
      | none => simp [hstem]
      | some found =>
        have htext := stem?_eq_some.mp hstem
        simp only [hstem]
        split
        case h_1 heq => cases heq
        case h_2 heq =>
          cases heq
          constructor
          · rintro ⟨⟩
          · rintro ⟨⟨⟩, hne, -⟩
            exact absurd rfl hne
        case h_3 other hne heq =>
          cases heq
          subst htext
          constructor
          · intro h
            cases h
            exact ⟨rfl, hne, rfl⟩
          · rintro ⟨⟨⟩, -, rfl⟩
            rfl

/-! ## What is found -/

def filesAmong (directory : Path) (entries : List DirectoryEntry) : List (String × Path) :=
  ((entries.map (discovered directory)).filterMap (·.2)).mergeSort fun a b => a.1 ≤ b.1

theorem mem_filesAmong {directory path : Path} {entries : List DirectoryEntry} {stem : String} :
    (stem, path) ∈ filesAmong directory entries ↔
      ⟨Name.ofString (fileName stem), true⟩ ∈ entries ∧ stem ≠ "" ∧
        path = directory.join (.ofString (fileName stem)) := by
  rw [filesAmong, List.mem_mergeSort, List.filterMap_map, List.mem_filterMap]
  simp only [Function.comp_apply, discovered_eq_some]
  constructor
  · rintro ⟨entry, hmem, rfl, hright⟩
    exact ⟨hmem, hright⟩
  · exact fun ⟨hmem, hright⟩ => ⟨_, hmem, rfl, hright⟩

theorem filesAmong_ordered {entries : List DirectoryEntry} (directory : Path)
    (h : entries.Pairwise fun a b => a.name ≠ b.name) :
    (filesAmong directory entries).Pairwise fun a b => a.1 < b.1 := by
  have hle : (filesAmong directory entries).Pairwise fun a b => a.1 ≤ b.1 := by
    refine (List.pairwise_mergeSort ?_ ?_ _).imp of_decide_eq_true
    · exact fun a b c hab hbc => decide_eq_true
        (String.le_trans (of_decide_eq_true hab) (of_decide_eq_true hbc))
    · exact fun a b => by simpa using String.le_total a.1 b.1
  have hne : (filesAmong directory entries).Pairwise fun a b => a.1 ≠ b.1 := by
    refine (List.mergeSort_perm _ _).symm.pairwise ?_ fun h => h.symm
    rw [List.filterMap_map]
    refine h.filterMap _ ?_
    rintro first second hnames ⟨stem, path⟩ hfirst ⟨other, elsewhere⟩ hsecond rfl
    obtain ⟨rfl, -⟩ := discovered_eq_some.mp hfirst
    obtain ⟨rfl, -⟩ := discovered_eq_some.mp hsecond
    exact hnames rfl
  exact hle.imp₂ (fun _ _ hab hother => String.not_le.mp fun hba =>
    hother (String.le_antisymm hab hba)) hne

/-- The list has each profile file of a project in this directory, by stem and path, in strictly
increasing order of stems. -/
structure ListsProfiles (tree : Tree) (project : Path) (location : Location)
    (found : List (String × Path)) : Prop where
  ordered : found.Pairwise fun a b => a.1 < b.1
  mem_iff : ∀ stem path, (stem, path) ∈ found ↔
    (∃ content, tree.lookup (location ++ [Name.ofString (fileName stem)]) = some (.file content)) ∧
      stem ≠ "" ∧ path = (directoryOf project).join (.ofString (fileName stem))

section
variable {tree : Tree} {current location : Location} {project : Path}

theorem discover_listsProfiles (h : tree.resolve .look current (directoryOf project) =
      .ok (.present location .directory)) :
    ∃ found, ((discover project : InTree _) current tree).1.2 = .ok found ∧
      ListsProfiles tree project location found := by
  obtain ⟨entries, hlist, hdistinct, hfiles⟩ := Tree.list_of_directory h
  have hdir : tree.isDirectory current (directoryOf project) = true :=
    Tree.isDirectory_iff.mpr ⟨location, h⟩
  refine ⟨filesAmong (directoryOf project) entries, ?_, filesAmong_ordered _ hdistinct,
    fun stem path => ?_⟩
  · rw [discover, InTree.bind_apply, InTree.isDirectory_apply, hdir, if_pos rfl, InTree.bind_apply,
      InTree.list_apply, hlist]
    rfl
  · rw [mem_filesAmong, hfiles]

/-- Without the directory of the project nothing is found. -/
theorem discover_of_not_isDirectory (h : tree.isDirectory current (directoryOf project) = false) :
    ((discover project : InTree _) current tree).1.2 = .ok [] := by
  rw [discover, InTree.bind_apply, InTree.isDirectory_apply, h]
  rfl

theorem listsProfiles_nil (h : ∀ name, tree.lookup (location ++ [name]) = none) :
    ListsProfiles tree project location [] :=
  ⟨.nil, fun stem path => by simp [h]⟩

end

/-! ## One more profile -/

/-- The second result is the first with one more profile, at the place of its stem. -/
def Inserts (before after : Except SystemError (List (String × Path))) (found : String × Path) :
    Prop :=
  ∃ earlier later, before = .ok (earlier ++ later) ∧ after = .ok (earlier ++ found :: later) ∧
    (∀ other ∈ earlier, other.1 < found.1) ∧ ∀ other ∈ later, found.1 < other.1

/-- In order of their stems, the same profiles make the same list. -/
theorem eq_of_mem_iff {first second : List (String × Path)}
    (hfirst : first.Pairwise fun a b => a.1 < b.1) (hsecond : second.Pairwise fun a b => a.1 < b.1)
    (hmem : ∀ found, found ∈ first ↔ found ∈ second) : first = second := by
  have : Std.Antisymm fun a b : String × Path => a.1 < b.1 :=
    ⟨fun _ _ hab hba => absurd hab (String.lt_asymm hba)⟩
  have : Std.Irrefl fun a b : String × Path => a.1 < b.1 := ⟨fun _ => String.lt_irrefl _⟩
  exact hfirst.eq_of_mem_iff hsecond hmem

/-- In order of their stems, the profiles with another stem stand as they do without this one. -/
theorem inserts_of_mem_iff {before after : List (String × Path)} {found : String × Path}
    (hbefore : before.Pairwise fun a b => a.1 < b.1) (hafter : after.Pairwise fun a b => a.1 < b.1)
    (hfound : found ∈ after) (hmem : ∀ other, other ∈ before ↔ other ∈ after ∧ other.1 ≠ found.1) :
    Inserts (.ok before) (.ok after) found := by
  obtain ⟨earlier, later, rfl⟩ := List.append_of_mem hfound
  obtain ⟨hfirst, hsecond, hacross⟩ := List.pairwise_append.mp hafter
  obtain ⟨hlater, hsecond⟩ := List.pairwise_cons.mp hsecond
  have hearlier : ∀ other ∈ earlier, other.1 < found.1 :=
    fun other hother => hacross other hother found List.mem_cons_self
  have hrest : before = earlier ++ later := by
    refine eq_of_mem_iff hbefore (hafter.sublist ?_) fun other => ?_
    · exact (List.sublist_cons_self _ _).append_left _
    · rw [hmem, List.mem_append, List.mem_append, List.mem_cons]
      constructor
      · rintro ⟨hin | rfl | hin, hne⟩
        · exact .inl hin
        · exact absurd rfl hne
        · exact .inr hin
      · rintro (hin | hin)
        · exact ⟨.inl hin, fun heq => String.lt_irrefl _ (heq ▸ hearlier other hin)⟩
        · exact ⟨.inr (.inr hin), fun heq => String.lt_irrefl _ (heq ▸ hlater other hin)⟩
  exact ⟨earlier, later, congrArg _ hrest, rfl, hearlier, hlater⟩

end Profile
end AbiFacts
