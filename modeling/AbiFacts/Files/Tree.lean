import AbiFacts.Files.Error
import AbiFacts.Files.Path

/-! # File trees

A tree maps locations, given by the names on the way from the root, to files, directories and links.
The root is always a directory. Entries are kept in the order in which they were made. No location
stands among them twice, and each of them is in a directory.
-/
namespace AbiFacts.Files

/-- The names from the root to an entry. -/
abbrev Location := List Name

inductive Node where
  | file (content : List UInt8)
  | directory
  | link (target : Path)
  deriving DecidableEq

/-- Is there a directory at this location, or is it the root? -/
def IsDirectory (entries : List (Location × Node)) (location : Location) : Prop :=
  location = [] ∨ (location, Node.directory) ∈ entries

structure IsTree (entries : List (Location × Node)) : Prop where
  nodup : (entries.map (·.1)).Nodup
  named : ∀ entry ∈ entries, ∃ name, entry.1.getLast? = some name ∧ name.isProper
  housed : ∀ entry ∈ entries, IsDirectory entries entry.1.dropLast

structure Tree where
  entries : List (Location × Node) := []
  isTree : IsTree entries := by exact ⟨by simp, by simp, by simp⟩

namespace Tree

instance : Inhabited Tree := ⟨{}⟩

def lookup (tree : Tree) (location : Location) : Option Node :=
  if location = [] then some .directory else tree.entries.lookup location

/-- Can a node be put at this location? It needs a proper name and a directory to be in, and takes
no directory away. -/
def admits (tree : Tree) (location : Location) : Bool :=
  location.getLast?.any Name.isProper &&
    tree.lookup location.dropLast == some .directory &&
    tree.lookup location != some .directory

private theorem lookup_eq_some_iff_mem {entries : List (Location × Node)} {location : Location}
    {node : Node} (h : (entries.map (·.1)).Nodup) :
    entries.lookup location = some node ↔ (location, node) ∈ entries := by
  induction entries with
  | nil => simp
  | cons entry entries ih =>
    obtain ⟨other, old⟩ := entry
    rw [List.map_cons, List.nodup_cons] at h
    by_cases hsame : location = other
    · subst hsame
      have habsent : (location, node) ∉ entries := fun hmem =>
        h.1 (List.mem_map.mpr ⟨_, hmem, rfl⟩)
      simp [habsent, eq_comm]
    · have hother : (location == other) = false := by simpa using hsame
      simp [List.lookup_cons, hother, hsame, ih h.2]

/-- A tree holds what is found in it. -/
theorem lookup_eq_some_iff {tree : Tree} {location : Location} {node : Node}
    (h : location ≠ []) : tree.lookup location = some node ↔ (location, node) ∈ tree.entries := by
  rw [lookup, if_neg h, lookup_eq_some_iff_mem tree.isTree.nodup]

theorem lookup_eq_directory_iff {tree : Tree} {location : Location} :
    tree.lookup location = some .directory ↔ IsDirectory tree.entries location := by
  by_cases h : location = []
  · simp [lookup, IsDirectory, h]
  · rw [lookup_eq_some_iff h, IsDirectory, or_iff_right h]

theorem admits_iff {tree : Tree} {location : Location} :
    tree.admits location ↔
      (∃ name, location.getLast? = some name ∧ name.isProper) ∧
        IsDirectory tree.entries location.dropLast ∧ ¬ IsDirectory tree.entries location := by
  simp [admits, ← lookup_eq_directory_iff, Option.any_eq_true, and_assoc]

private def replaced (entries : List (Location × Node)) (location : Location) (node : Node) :
    List (Location × Node) :=
  entries.map fun entry => if entry.1 = location then (location, node) else entry

private theorem isTree_replaced {tree : Tree} {location : Location} {node : Node}
    (h : tree.admits location) : IsTree (replaced tree.entries location node) := by
  obtain ⟨hname, hhoused, hno⟩ := admits_iff.mp h
  have keeps : ∀ {other}, IsDirectory tree.entries other →
      IsDirectory (replaced tree.entries location node) other := by
    rintro other (rfl | hmem)
    · exact .inl rfl
    · have hne : other ≠ location := fun he => hno (.inr (he ▸ hmem))
      exact .inr (List.mem_map.mpr ⟨_, hmem, if_neg hne⟩)
  have keys : (replaced tree.entries location node).map (·.1) = tree.entries.map (·.1) := by
    rw [replaced, List.map_map]
    refine List.map_congr_left fun entry _ => ?_
    by_cases he : entry.1 = location <;> simp [he]
  refine ⟨keys ▸ tree.isTree.nodup, fun entry hentry => ?_, fun entry hentry => ?_⟩ <;>
    obtain ⟨old, hold, rfl⟩ := List.mem_map.mp hentry <;> split
  · exact hname
  · exact tree.isTree.named old hold
  · exact keeps hhoused
  · exact keeps (tree.isTree.housed old hold)

private theorem isTree_append {tree : Tree} {location : Location} {node : Node}
    (h : tree.admits location) (habsent : location ∉ tree.entries.map (·.1)) :
    IsTree (tree.entries ++ [(location, node)]) := by
  obtain ⟨hname, hhoused, _⟩ := admits_iff.mp h
  have keeps : ∀ {other}, IsDirectory tree.entries other →
      IsDirectory (tree.entries ++ [(location, node)]) other :=
    Or.imp_right (List.mem_append_left _)
  refine ⟨?_, ?_, ?_⟩
  · rw [List.map_append, List.nodup_append]
    refine ⟨tree.isTree.nodup, by simp, fun a ha b hb hab => ?_⟩
    have hlocation : a = location := hab.trans (List.mem_singleton.mp hb)
    exact habsent (hlocation ▸ ha)
  · rintro entry hentry
    rcases List.mem_append.mp hentry with hold | hnew
    · exact tree.isTree.named entry hold
    · rw [List.mem_singleton.mp hnew]
      exact hname
  · rintro entry hentry
    rcases List.mem_append.mp hentry with hold | hnew
    · exact keeps (tree.isTree.housed entry hold)
    · rw [List.mem_singleton.mp hnew]
      exact keeps hhoused

/-- Put a node at a location, in place of what is there. Nothing changes where none can be put. -/
def put (location : Location) (node : Node) (tree : Tree) : Tree :=
  if h : tree.admits location then
    if habsent : location ∈ tree.entries.map (·.1) then
      ⟨replaced tree.entries location node, isTree_replaced h⟩
    else ⟨tree.entries ++ [(location, node)], isTree_append h habsent⟩
  else tree

theorem ne_nil_of_admits {tree : Tree} {location : Location} (h : tree.admits location) :
    location ≠ [] := by
  obtain ⟨⟨name, hname, _⟩, _⟩ := admits_iff.mp h
  exact fun he => by simp [he] at hname

private theorem mem_put {tree : Tree} {location other : Location} {node found : Node}
    (h : tree.admits location) :
    (other, found) ∈ (tree.put location node).entries ↔
      if other = location then found = node else (other, found) ∈ tree.entries := by
  rw [put, dif_pos h]
  split
  · next hpresent =>
    obtain ⟨old, hold, hlocation⟩ := List.mem_map.mp hpresent
    simp only [replaced, List.mem_map]
    constructor
    · rintro ⟨entry, hmem, hentry⟩
      split at hentry
      · obtain ⟨rfl, rfl⟩ := Prod.mk.inj hentry
        simp
      · next hne =>
        subst hentry
        rwa [if_neg hne]
    · split
      · next hsame =>
        rintro rfl
        exact ⟨old, hold, by rw [if_pos hlocation, hsame]⟩
      · next hne => exact fun hmem => ⟨_, hmem, if_neg hne⟩
  · next habsent =>
    rw [List.mem_append, List.mem_singleton, Prod.mk.injEq]
    split
    · next hsame =>
      subst hsame
      have hnone : (other, found) ∉ tree.entries := fun hmem =>
        habsent (List.mem_map.mpr ⟨_, hmem, rfl⟩)
      simp [hnone]
    · next hne => simp [hne]

/-- What was put at a location is found there, and nothing else changes. -/
theorem lookup_put {tree : Tree} {location other : Location} {node : Node}
    (h : tree.admits location) :
    (tree.put location node).lookup other =
      if other = location then some node else tree.lookup other := by
  by_cases hroot : other = []
  · subst hroot
    rw [if_neg fun he => ne_nil_of_admits h he.symm]
    rfl
  · refine Option.ext fun found => ?_
    rw [lookup_eq_some_iff hroot, mem_put h]
    split
    · simp [eq_comm]
    · rw [lookup_eq_some_iff hroot]

def children (tree : Tree) (directory : Location) : List (Name × Node) :=
  tree.entries.filterMap fun (location, node) =>
    match location.getLast? with
    | some name => if location.dropLast = directory then some (name, node) else none
    | none => none

end Tree
end AbiFacts.Files
