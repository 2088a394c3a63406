import AbiFacts.Proofs.Files.Leading

/-! # How trees change

Making directories adds directories where nothing was, at places that the path leads to on its way.
Writing a file puts it where the path leads. Everything else that the program does leaves the tree
alone.
-/
namespace AbiFacts.Files

/-! ## Actions -/

namespace InTree

section
variable {α β : Type} (current : Location) (tree : Tree)

@[simp] theorem pure_apply (a : α) : (pure a : InTree α) current tree = (a, tree) := rfl

@[simp] theorem bind_apply (x : InTree α) (f : α → InTree β) :
    (x >>= f) current tree = f (x current tree).1 current (x current tree).2 := rfl

@[simp] theorem currentDirectory_apply :
    (FileAccess.currentDirectory : InTree Path) current tree = (current.path, tree) := rfl

@[simp] theorem pathExists_apply (path : Path) :
    (FileAccess.pathExists path : InTree Bool) current tree =
      (tree.pathExists current path, tree) := rfl

@[simp] theorem isDirectory_apply (path : Path) :
    (FileAccess.isDirectory path : InTree Bool) current tree =
      (tree.isDirectory current path, tree) := rfl

@[simp] theorem read_apply (path : Path) :
    (FileAccess.read path : InTree _) current tree = (tree.read current path, tree) := rfl

@[simp] theorem list_apply (path : Path) :
    (FileAccess.list path : InTree _) current tree = (tree.list current path, tree) := rfl

@[simp] theorem makeDirectory_apply (path : Path) :
    (FileAccess.makeDirectory path : InTree _) current tree = tree.makeDirectory current path := rfl

@[simp] theorem write_apply (path : Path) (content : List UInt8) :
    (FileAccess.write path content : InTree _) current tree =
      tree.write current path content := rfl

end

def IsQuiet {α : Type} (x : InTree α) : Prop :=
  ∀ current tree, (x current tree).2 = tree

namespace IsQuiet

variable {α β : Type}

theorem pure (a : α) : IsQuiet (Pure.pure a : InTree α) := fun _ _ => rfl

theorem bind {x : InTree α} {f : α → InTree β} (hx : IsQuiet x) (hf : ∀ a, IsQuiet (f a)) :
    IsQuiet (x >>= f) := by
  intro current tree
  rw [bind_apply, hf, hx]

theorem mapM {f : α → InTree β} (hf : ∀ a, IsQuiet (f a)) (as : List α) : IsQuiet (as.mapM f) := by
  induction as with
  | nil =>
    rw [List.mapM_nil]
    exact .pure []
  | cons a as ih =>
    rw [List.mapM_cons]
    exact (hf a).bind fun b => ih.bind fun bs => .pure (b :: bs)

end IsQuiet
end InTree

/-! ## Directories -/

namespace Tree

/-- Nothing changes but that directories are made where nothing was, at some of these locations. -/
def AddsDirectories (made : Location → Prop) (before after : Tree) : Prop :=
  ∀ location, after.lookup location = before.lookup location ∨
    before.lookup location = none ∧ after.lookup location = some .directory ∧ made location

namespace AddsDirectories

variable {made : Location → Prop} {before between after : Tree}

theorem refl (tree : Tree) : AddsDirectories made tree tree := fun _ => .inl rfl

theorem trans (h : AddsDirectories made before between) (h' : AddsDirectories made between after) :
    AddsDirectories made before after := by
  intro location
  obtain heq | ⟨hnone, hdir, hmade⟩ := h' location
  · rw [heq]
    exact h location
  · obtain heq | ⟨-, hother, -⟩ := h location
    · exact .inr ⟨heq ▸ hnone, hdir, hmade⟩
    · rw [hnone] at hother
      cases hother

/-- What is there stays. -/
theorem lookup_eq_some (h : AddsDirectories made before after) {location : Location} {node : Node}
    (hnode : before.lookup location = some node) : after.lookup location = some node := by
  obtain heq | ⟨hnone, -⟩ := h location
  · rw [heq, hnode]
  · rw [hnode] at hnone
    cases hnone

/-- What is no directory was there before. -/
theorem lookup_before (h : AddsDirectories made before after) {location : Location}
    (hdir : after.lookup location ≠ some .directory) :
    before.lookup location = after.lookup location := by
  obtain heq | ⟨-, hother, -⟩ := h location
  · exact heq.symm
  · exact absurd hother hdir

/-- Files and links are the same as before. -/
theorem lookup_eq_some_iff (h : AddsDirectories made before after) {location : Location}
    {node : Node} (hnode : node ≠ .directory) :
    after.lookup location = some node ↔ before.lookup location = some node := by
  refine ⟨fun hafter => (h.lookup_before ?_).trans hafter, h.lookup_eq_some⟩
  rwa [hafter, ne_eq, Option.some.injEq]

theorem isLinkless (h : AddsDirectories made before after) (hlinkless : before.IsLinkless) :
    after.IsLinkless := by
  intro location target hlink
  have hdir : after.lookup location ≠ some .directory := by simp [hlink]
  exact hlinkless location target ((h.lookup_before hdir).trans hlink)

end AddsDirectories

theorem addsDirectories_put {made : Location → Prop} {tree : Tree} {location : Location}
    (hadmits : tree.admits location) (hnone : tree.lookup location = none) (hmade : made location) :
    AddsDirectories made tree (tree.put location .directory) := by
  intro other
  rw [lookup_put hadmits]
  split
  case isTrue heq => exact .inr ⟨heq ▸ hnone, rfl, heq ▸ hmade⟩
  case isFalse => exact .inl rfl

end Tree

/-- The location is one that the path leads to on its way, before its last name. -/
def Path.PassesThrough (current : Location) (path : Path) (location : Location) : Prop :=
  ∃ names name rest, path.names = names ++ name :: rest ∧
    location = names.foldl Location.enter (path.start current)

theorem Path.IsBelow.passesThrough {current : Location} {path parent : Path}
    (h : path.IsBelow parent) : path.PassesThrough current (parent.destination current) := by
  obtain ⟨name, rest, hnames⟩ := h.names
  exact ⟨parent.names, name, rest, hnames, by rw [destination, start, start, h.isAbsolute]⟩

namespace Tree

variable {tree : Tree} {current : Location} {path parent : Path}

theorem makeDirectory_adds (hlinkless : tree.IsLinkless) (hbelow : path.IsBelow parent) :
    AddsDirectories (path.PassesThrough current) tree (tree.makeDirectory current parent).2 := by
  unfold makeDirectory
  split
  case h_1 location hresolve =>
    obtain ⟨hleads, hnone, hadmits⟩ := finds_of_resolve hlinkless hresolve
    rw [hleads.eq_destination] at hnone hadmits ⊢
    exact addsDirectories_put hadmits hnone hbelow.passesThrough
  case h_2 => exact .refl tree
  case h_3 => exact .refl tree

end Tree

theorem settle_isQuiet (path : Path) (made : Except SystemError Unit) :
    InTree.IsQuiet (makeParents.settle path made : InTree _) := by
  cases made with
  | ok => exact .pure _
  | error e =>
    refine .bind (fun _ _ => rfl) fun isDirectory => ?_
    cases isDirectory with
    | true => exact .pure _
    | false => exact .pure _

/-- What making one directory above a path keeps, making all its parents keeps. -/
theorem makeParents_keeps (kept : Tree → Tree → Prop) {current : Location} {path : Path}
    (hrefl : ∀ tree, kept tree tree)
    (htrans : ∀ {before between after}, kept before between → kept between after →
      kept before after)
    (hstep : ∀ {above}, path.IsBelow above → ∀ tree, kept tree (tree.makeDirectory current above).2)
    {depth : Nat} {tree : Tree} {parent : Path} (hbelow : path.IsBelow parent) :
    kept tree ((makeParents depth parent : InTree _) current tree).2 := by
  induction depth generalizing parent tree with
  | zero => exact hrefl tree
  | succ depth ih =>
    have hfirst := hstep hbelow tree
    rw [makeParents]
    split
    case isTrue => exact hrefl tree
    case isFalse =>
      rw [InTree.bind_apply, InTree.makeDirectory_apply]
      generalize tree.makeDirectory current parent = outcome at hfirst ⊢
      obtain ⟨made, first⟩ := outcome
      dsimp only
      split
      case h_1 => exact hfirst
      case h_2 =>
        cases hparent : parent.parent? with
        | none => exact hfirst
        | some grandparent =>
          dsimp only
          rw [InTree.bind_apply]
          have habove : kept first ((makeParents depth grandparent : InTree _) current first).2 :=
            ih (hbelow.trans (Path.isBelow_of_parent? hparent))
          generalize (makeParents depth grandparent : InTree _) current first = outcome at habove ⊢
          obtain ⟨made, second⟩ := outcome
          dsimp only
          split
          case h_1 => exact htrans hfirst habove
          case h_2 =>
            rw [InTree.bind_apply, settle_isQuiet, InTree.makeDirectory_apply]
            exact htrans (htrans hfirst habove) (hstep hbelow second)
      case h_3 =>
        rw [settle_isQuiet]
        exact hfirst

/-- Parents are made only on the way to the path. -/
theorem makeParents_adds {depth : Nat} {tree : Tree} {current : Location} {path parent : Path}
    (hlinkless : tree.IsLinkless) (hbelow : path.IsBelow parent) :
    Tree.AddsDirectories (path.PassesThrough current) tree
      ((makeParents depth parent : InTree _) current tree).2 := by
  refine makeParents_keeps (fun before after => before.IsLinkless →
    Tree.AddsDirectories (path.PassesThrough current) before after) (fun tree _ => .refl tree) ?_ ?_
    hbelow hlinkless
  · intro _ _ _ hfirst hmore hstart
    exact (hfirst hstart).trans (hmore ((hfirst hstart).isLinkless hstart))
  · exact fun habove tree hstart => Tree.makeDirectory_adds hstart habove

/-! ## Files -/

namespace Tree

variable {tree before between after : Tree} {current : Location} {path : Path}
variable {content : List UInt8}

def KeepsDirectories (before after : Tree) : Prop :=
  ∀ location, before.lookup location = some .directory → after.lookup location = some .directory

theorem KeepsDirectories.trans (h : KeepsDirectories before between)
    (h' : KeepsDirectories between after) : KeepsDirectories before after :=
  fun location hdir => h' location (h location hdir)

theorem AddsDirectories.keepsDirectories {made : Location → Prop}
    (h : AddsDirectories made before after) : KeepsDirectories before after :=
  fun _ => h.lookup_eq_some

theorem keepsDirectories_put {location : Location} (hadmits : tree.admits location) (node : Node) :
    KeepsDirectories tree (tree.put location node) := by
  intro other hdir
  rw [lookup_put hadmits, if_neg]
  · exact hdir
  · rintro rfl
    exact lookup_ne_directory_of_admits hadmits hdir

theorem isLinkless_put_file {location : Location} (hlinkless : tree.IsLinkless)
    (hadmits : tree.admits location) (content : List UInt8) :
    (tree.put location (.file content)).IsLinkless := by
  intro other target
  rw [lookup_put hadmits]
  split
  case isTrue => exact fun heq => nomatch heq
  case isFalse => exact hlinkless other target

/-- The tree has the directories on the way of the path, and a file can be put at its end. -/
structure Reaches (tree : Tree) (current : Location) (path : Path) : Prop where
  isUsable : path.IsUsable
  leads : tree.Leads path.steps (path.start current) (path.destination current)
  admits : tree.admits (path.destination current)

/-- A file is written where its path leads, over nothing but a file. -/
theorem place_of_write (h : tree.write current path content = (.ok (), after)) :
    ∃ location place, tree.resolve .write current path = .ok place ∧
      after = tree.put location (.file content) ∧
      (place = .absent location ∨ ∃ old, place = .present location (.file old)) := by
  unfold write at h
  split at h
  case h_1 location hresolve =>
    cases h
    exact ⟨location, _, hresolve, rfl, .inl rfl⟩
  case h_2 location old hresolve =>
    cases h
    exact ⟨location, _, hresolve, rfl, .inr ⟨old, rfl⟩⟩
  case h_3 => cases h
  case h_4 => cases h

/-- Without links, a file that is written is put at the destination of its path. -/
theorem write_eq_ok (hlinkless : tree.IsLinkless)
    (h : tree.write current path content = (.ok (), after)) :
    tree.Reaches current path ∧ after = tree.put (path.destination current) (.file content) := by
  obtain ⟨location, place, hresolve, rfl, hplace⟩ := place_of_write h
  have hfinds := finds_of_resolve hlinkless hresolve
  obtain ⟨hleads, hadmits⟩ : tree.Leads (namesFor .write path) (path.start current) location ∧
      tree.admits location := by
    obtain rfl | ⟨old, rfl⟩ := hplace
    · exact ⟨hfinds.1, hfinds.2.2⟩
    · exact ⟨hfinds.1, admits_of_lookup hfinds.2 fun heq => nomatch heq⟩
  obtain rfl := hleads.eq_destination
  exact ⟨⟨isUsable_of_resolve hresolve, hleads, hadmits⟩, rfl⟩

theorem write_eq_error {e : SystemError}
    (h : tree.write current path content = (.error e, after)) : after = tree := by
  unfold write at h
  split at h
  case h_1 => cases h
  case h_2 => cases h
  case h_3 => exact (Prod.mk.inj h).2.symm
  case h_4 => exact (Prod.mk.inj h).2.symm

/-- What stands at the end of the way is found by the path as long as the directories are kept. -/
theorem Reaches.resolve_look (h : tree.Reaches current path) (hlinkless : after.IsLinkless)
    (hkeep : KeepsDirectories tree after) {node : Node}
    (hnode : after.lookup (path.destination current) = some node) :
    after.resolve .look current path = .ok (.present (path.destination current) node) :=
  (h.leads.mono fun location _ => hkeep location).resolve_look hlinkless h.isUsable hnode

/-- A path that is not found, although something is at its destination, takes a step up. -/
theorem Reaches.dotDot_mem (h : between.Reaches current path) (hlinkless : before.IsLinkless)
    (hmissing : before.pathExists current path = false) {node : Node}
    (hnode : before.lookup (path.destination current) = some node) : Path.dotDot ∈ path.names := by
  by_contra hno
  have hsteps : Path.dotDot ∉ path.steps := by
    rw [Path.steps, List.mem_append, not_or]
    refine ⟨hno, ?_⟩
    split <;> simp [Path.dotDot]
  have hleads : before.Leads path.steps (path.start current) (path.destination current) := by
    refine h.leads.mono fun location hon hdir => ?_
    refine lookup_above hnode (hon.resolve_left hsteps) ?_
    rintro rfl
    exact lookup_ne_directory_of_admits h.admits hdir
  rw [pathExists, hleads.resolve_look hlinkless h.isUsable hnode] at hmissing
  cases hmissing

end Tree
end AbiFacts.Files
