import AbiFacts.Proofs.Files.Entries

/-! # Files that cannot be reached

Permissions can hide what is in a tree, or keep it from being read. Such barriers stand before an
access to the files of a tree, which is otherwise what it is in the tree (`Barred`). Besides, two
trees may have the same shape but other bytes in their files; then their paths lead to the same
places.
-/
namespace AbiFacts.Files

/-! ## Barriers -/

/-- Paths at which nothing is found, and those that fail to be read or listed, with their errors. -/
structure Barriers where
  hidden : Path → Bool
  locked : Path → Option SystemError

namespace Barriers

def clear : Barriers := ⟨fun _ => false, fun _ => none⟩

variable (barriers : Barriers) (tree : Tree) (current : Location) (path : Path)

def pathExists : Bool := !barriers.hidden path && tree.pathExists current path

def isDirectory : Bool := !barriers.hidden path && tree.isDirectory current path

def read : Except SystemError (List UInt8) :=
  match barriers.locked path with
  | some e => .error e
  | none => tree.read current path

def list : Except SystemError (List DirectoryEntry) :=
  match barriers.locked path with
  | some e => .error e
  | none => tree.list current path

end Barriers

def Barred (_barriers : Barriers) (α : Type) : Type := InTree α

namespace Barred

variable {barriers : Barriers}

instance : Monad (Barred barriers) := inferInstanceAs (Monad InTree)

instance : LawfulMonad (Barred barriers) := inferInstanceAs (LawfulMonad InTree)

instance : FileAccess (Barred barriers) where
  currentDirectory := (FileAccess.currentDirectory : InTree _)
  pathExists path := fun current tree => (barriers.pathExists tree current path, tree)
  isDirectory path := fun current tree => (barriers.isDirectory tree current path, tree)
  read path := fun current tree => (barriers.read tree current path, tree)
  list path := fun current tree => (barriers.list tree current path, tree)
  makeDirectory path := (FileAccess.makeDirectory path : InTree _)
  write path content := (FileAccess.write path content : InTree _)

variable {α β : Type} (current : Location) (tree : Tree)

@[simp] theorem pure_apply (a : α) : (pure a : Barred barriers α) current tree = (a, tree) := rfl

@[simp] theorem bind_apply (x : Barred barriers α) (f : α → Barred barriers β) :
    (x >>= f) current tree = f (x current tree).1 current (x current tree).2 := rfl

@[simp] theorem currentDirectory_apply :
    (FileAccess.currentDirectory : Barred barriers Path) current tree = (current.path, tree) := rfl

@[simp] theorem pathExists_apply (path : Path) :
    (FileAccess.pathExists path : Barred barriers Bool) current tree =
      (barriers.pathExists tree current path, tree) := rfl

@[simp] theorem isDirectory_apply (path : Path) :
    (FileAccess.isDirectory path : Barred barriers Bool) current tree =
      (barriers.isDirectory tree current path, tree) := rfl

@[simp] theorem read_apply (path : Path) :
    (FileAccess.read path : Barred barriers _) current tree =
      (barriers.read tree current path, tree) := rfl

@[simp] theorem list_apply (path : Path) :
    (FileAccess.list path : Barred barriers _) current tree =
      (barriers.list tree current path, tree) := rfl

variable {current tree}

/-- Steps that leave the tree alone may be taken one by one. -/
theorem mapM_apply {f : α → Barred barriers β} {g : α → β}
    (h : ∀ a, f a current tree = (g a, tree)) (as : List α) :
    (as.mapM f) current tree = (as.map g, tree) := by
  induction as with
  | nil =>
    rw [List.mapM_nil]
    rfl
  | cons a as ih =>
    rw [List.mapM_cons, bind_apply, h, bind_apply, ih]
    rfl

end Barred

/-! ## Trees of the same shape -/

namespace Tree

/-- Directories and links are the same, and files stand in the same places. -/
structure SameShape (tree other : Tree) : Prop where
  forth : Retains tree other
  back : Retains other tree

namespace SameShape

variable {tree other : Tree} {current location : Location} {path : Path}

/-- Where files are put in the places of files, the shape stays. -/
theorem of_put {content : List UInt8} (hadmits : tree.admits location)
    (hfile : tree.lookup location = some (.file content)) (bytes : List UInt8) :
    SameShape tree (tree.put location (.file bytes)) := by
  constructor
  · intro place node hnode
    rw [lookup_put hadmits]
    by_cases hplace : place = location
    · rw [hplace, hfile, Option.some.injEq] at hnode
      exact .inr ⟨content, bytes, hnode.symm, if_pos hplace⟩
    · exact .inl ((if_neg hplace).trans hnode)
  · intro place node hnode
    rw [lookup_put hadmits] at hnode
    by_cases hplace : place = location
    · rw [if_pos hplace, Option.some.injEq] at hnode
      exact .inr ⟨bytes, content, hnode.symm, hplace ▸ hfile⟩
    · exact .inl ((if_neg hplace).symm.trans hnode)

theorem isFile (h : SameShape tree other) (location : Location) :
    (∃ content, other.lookup location = some (.file content)) ↔
      ∃ content, tree.lookup location = some (.file content) := by
  have hfile : ∀ {a b : Tree}, Retains a b →
      (∃ content, a.lookup location = some (.file content)) →
        ∃ content, b.lookup location = some (.file content) := by
    rintro a b hretains ⟨content, hcontent⟩
    rcases hretains _ _ hcontent with hsame | ⟨_, bytes, _, hbytes⟩
    · exact ⟨content, hsame⟩
    · exact ⟨bytes, hbytes⟩
  exact ⟨hfile h.back, hfile h.forth⟩

theorem resolve_directory (h : SameShape tree other) :
    other.resolve .look current path = .ok (.present location .directory) ↔
      tree.resolve .look current path = .ok (.present location .directory) := by
  have hresolve : ∀ {a b : Tree}, Retains a b →
      a.resolve .look current path = .ok (.present location .directory) →
        b.resolve .look current path = .ok (.present location .directory) :=
    fun hretains ha => resolve_look_mono hretains ha (hretains.directory (holds_of_resolve ha))
  exact ⟨hresolve h.back, hresolve h.forth⟩

theorem isDirectory (h : SameShape tree other) :
    other.isDirectory current path = tree.isDirectory current path := by
  rw [Bool.eq_iff_iff, isDirectory_iff, isDirectory_iff]
  exact exists_congr fun _ => h.resolve_directory

theorem pathExists (h : SameShape tree other) :
    other.pathExists current path = tree.pathExists current path := by
  have hexists : ∀ {a b : Tree}, Retains a b → a.pathExists current path = true →
      b.pathExists current path = true := by
    intro a b hretains ha
    rw [Tree.pathExists] at ha
    split at ha
    case h_1 place node hresolve =>
      rcases hretains _ _ (holds_of_resolve hresolve) with hsame | ⟨_, bytes, _, hbytes⟩
      · rw [Tree.pathExists, resolve_look_mono hretains hresolve hsame]
      · rw [Tree.pathExists, resolve_look_mono hretains hresolve hbytes]
    case h_2 => cases ha
  rw [Bool.eq_iff_iff]
  exact ⟨hexists h.back, hexists h.forth⟩

end SameShape
end Tree
end AbiFacts.Files
