import AbiFacts.Proofs.Files.Growing
import AbiFacts.Proofs.Files.Links

/-! # Making the parents of a path

In any tree, making the parents of a path adds directories and changes nothing else, and each of
them is where some leading part of the path leads afterwards (`makeDirectories_addsParents`). Where
the parent is a directory already, nothing is made.
-/
namespace AbiFacts.Files

namespace Tree

variable {tree before between after : Tree} {links : Nat} {name : Name} {rest : List Name}
variable {current location target : Location} {path parent above : Path} {place : Place}

theorem AddsDirectories.retains {made : Location → Prop} (h : AddsDirectories made before after) :
    Retains before after :=
  fun _ _ hnode => .inl (h.lookup_eq_some hnode)

theorem AddsDirectories.imp {made other : Location → Prop}
    (hmade : ∀ location, made location → other location) (h : AddsDirectories made before after) :
    AddsDirectories other before after :=
  fun location => (h location).imp_right fun ⟨hnone, hdir, h⟩ => ⟨hnone, hdir, hmade location h⟩

/-! ## One directory -/

/-- A directory can be made where a proper name is missing from a directory. -/
theorem follow_make_absent (h : tree.follow .make links location [name] = .ok (.absent target)) :
    tree.lookup location = some .directory ∧ ¬ (name = [] ∨ name = Path.dot) ∧
      name ≠ Path.dotDot ∧ name.length ≤ maxName ∧ target = location ++ [name] ∧
      tree.lookup target = none := by
  obtain ⟨hdir, hstep⟩ := enters_of_follow h
  cases hstep with
  | stay _ hmore => simp [follow_nil, hdir] at hmore
  | up _ hmore => simp [follow_nil, lookup_dropLast hdir] at hmore
  | entry hstay hup hlength hmore =>
    cases hmore with
    | missing hnone _ hplace =>
      cases hplace
      exact ⟨hdir, hstay, hup, hlength, rfl, hnone⟩
    | linkItself _ _ _ hplace => cases hplace
    | link _ hother => exact absurd ⟨rfl, rfl⟩ hother
    | down hnode _ hmore => simp [follow_nil, hnode] at hmore

/-- Where names are found, a directory is not made under the first of them. -/
theorem follow_make_present {node : Node}
    (h : tree.follow .look links location (name :: rest) = .ok (.present target node)) :
    ∃ other node, tree.follow .make links location [name] = .ok (.present other node) := by
  obtain ⟨hdir, hstep⟩ := enters_of_follow h
  rw [follow_cons, hdir]
  simp only [follow_nil]
  cases hstep with
  | stay hname => exact ⟨_, _, by rw [if_pos hname, hdir]⟩
  | up hname =>
    subst hname
    exact ⟨_, _, by rw [if_neg (by decide), if_pos rfl, lookup_dropLast hdir]⟩
  | entry hstay hup hlength hmore =>
    rw [if_neg hstay, if_neg hup, if_neg (by simp), if_neg (Nat.not_lt.mpr hlength)]
    cases hmore with
    | missing _ _ hplace => cases hplace
    | linkItself _ hmake => cases hmake
    | link hnode => exact ⟨_, _, by rw [hnode]; rfl⟩
    | @down node hnode hlink =>
      rw [hnode]
      cases node with
      | link path => exact absurd rfl (hlink path)
      | file | directory => exact ⟨_, _, rfl⟩

theorem namesFor_make (path : Path) : namesFor .make path = path.names :=
  if_pos rfl

theorem namesFor_of_ne_make {purpose : Purpose} (h : purpose ≠ .make) (path : Path) :
    namesFor purpose path = path.names ++ if path.endsInSlash then [[]] else [] :=
  if_neg h

/-- The slash at the end of a path leads on to nothing else. -/
theorem follow_slash {slash : Bool}
    (h : tree.follow .look links location (if slash then [[]] else []) = .ok place) :
    ∃ node, tree.lookup location = some node ∧ place = .present location node := by
  have hnil : tree.follow .look links location [] = .ok place := by
    cases slash with
    | false => exact h
    | true =>
      obtain ⟨-, hstep⟩ := enters_of_follow h
      cases hstep with
      | stay _ hmore => exact hmore
      | up hname => cases hname
      | entry hstay => exact absurd (.inl rfl) hstay
  rw [follow_nil] at hnil
  split at hnil
  case h_1 node hnode => exact ⟨node, hnode, (Except.ok.inj hnil).symm⟩
  case h_2 => cases hnil

/-- Where something is found, no directory can be made. -/
theorem makeDirectory_of_found {node : Node}
    (h : tree.resolve .look current path = .ok (.present location node)) :
    tree.makeDirectory current path = (.error .alreadyExists, tree) := by
  have husable := isUsable_of_resolve h
  suffices hmake : ∃ other node, tree.resolve .make current path = .ok (.present other node) by
    obtain ⟨other, node, hmake⟩ := hmake
    rw [makeDirectory, hmake]
  rw [resolve_of_isUsable husable, namesFor_of_ne_make (by decide)] at h
  rw [resolve_of_isUsable husable, namesFor_make]
  obtain hnone | ⟨first, last, hnames⟩ := List.eq_nil_or_concat path.names
  · -- The path is one of slashes, or the start itself.
    rw [hnone, List.nil_append] at h
    obtain ⟨node, hnode, -⟩ := follow_slash h
    exact ⟨_, _, by rw [hnone, follow_nil, hnode]⟩
  · rw [List.concat_eq_append] at hnames
    have hmem : last ∈ path.names := by simp [hnames]
    have hlast : last ≠ [] := ne_nil_of_mem_names hmem
    rw [hnames, List.append_assoc, List.singleton_append] at h
    obtain ⟨left, between, hpasses, hfollow⟩ := passes_of_follow h (.inl rfl) (by simp)
    rw [hnames, hpasses.follow_append (.inr ⟨last, [], rfl, hlast⟩)]
    exact follow_make_present hfollow

/-- A directory that is made is where its path leads from then on. -/
theorem resolve_of_makeDirectory (h : tree.resolve .make current path = .ok (.absent location)) :
    tree.lookup location = none ∧ tree.admits location ∧
      (tree.put location .directory).resolve .look current path =
        .ok (.present location .directory) := by
  obtain hnone | ⟨names, last, hnames⟩ := List.eq_nil_or_concat path.names
  · rw [resolve_of_isUsable (isUsable_of_resolve h), namesFor_make, hnone, follow_nil] at h
    split at h <;> cases h
  rw [List.concat_eq_append] at hnames
  have hmem : last ∈ namesFor .make path := by simp [namesFor_make, hnames]
  have hlast : last ≠ [] := ne_nil_of_mem_names (namesFor_make path ▸ hmem)
  obtain ⟨husable, left, directory, hpasses, hfollow⟩ :=
    passes_of_resolve h ((namesFor_make path).trans hnames) hlast
  obtain ⟨hdir, hstay, hup, hlength, rfl, hnone⟩ := follow_make_absent hfollow
  have hproper : last.isProper :=
    isProper_of_walked (of_mem_namesFor husable last hmem) hstay hup hlength
  have hadmits : tree.admits (directory ++ [last]) := admits_append hdir hproper (by simp [hnone])
  refine ⟨hnone, hadmits, ?_⟩
  have hadds : AddsDirectories (fun _ => True) tree (tree.put (directory ++ [last]) .directory) :=
    addsDirectories_put hadmits hnone trivial
  have hmade : (tree.put (directory ++ [last]) .directory).lookup (directory ++ [last]) =
      some .directory := by rw [lookup_put hadmits, if_pos rfl]
  have hslash : (tree.put (directory ++ [last]) .directory).Passes left
      (if path.endsInSlash then [[]] else []) (directory ++ [last]) left (directory ++ [last]) := by
    split
    case isTrue => exact .stay hmade (.inl rfl) .here
    case isFalse => exact .here
  refine resolve_look_eq_ok.mpr ⟨husable, ⟨left, ?_⟩, hmade⟩
  rw [Path.steps, hnames, List.append_assoc]
  refine (hpasses.mono hadds.retains).append ?_
  exact .down (hadds.lookup_eq_some hdir) hstay hup hlength hmade (by simp) hslash

/-! ## All parents -/

/-- Nothing changes but that directories are made where nothing was, and to each of them a leading
part of the path leads afterwards. -/
def AddsParents (current : Location) (path : Path) (before after : Tree) : Prop :=
  AddsDirectories (fun location => ∃ above, path.IsBelow above ∧
    after.resolve .look current above = .ok (.present location .directory)) before after

theorem AddsParents.refl (tree : Tree) : AddsParents current path tree tree :=
  AddsDirectories.refl tree

theorem AddsParents.trans (h : AddsParents current path before between)
    (h' : AddsParents current path between after) : AddsParents current path before after := by
  refine AddsDirectories.trans (AddsDirectories.imp ?_ h) h'
  rintro location ⟨above, hbelow, hresolve⟩
  refine ⟨above, hbelow, resolve_look_mono h'.retains hresolve ?_⟩
  exact h'.lookup_eq_some (resolve_look_eq_ok.mp hresolve).2.2

theorem makeDirectory_addsParents (hbelow : path.IsBelow above) (tree : Tree) :
    AddsParents current path tree (tree.makeDirectory current above).2 := by
  unfold makeDirectory
  split
  case h_1 location hresolve =>
    obtain ⟨hnone, hadmits, hmade⟩ := resolve_of_makeDirectory hresolve
    exact addsDirectories_put hadmits hnone ⟨above, hbelow, hmade⟩
  case h_2 => exact .refl tree
  case h_3 => exact .refl tree

end Tree

section
variable {path parent : Path}

theorem makeDirectories_addsParents (current : Location) (tree : Tree)
    (hparent : path.parent? = some parent) :
    tree.AddsParents current path ((makeDirectories parent : InTree _) current tree).2 :=
  makeParents_keeps (Tree.AddsParents current path) Tree.AddsParents.refl
    Tree.AddsParents.trans Tree.makeDirectory_addsParents (Path.isBelow_of_parent? hparent)

/-- Nothing is made for a directory that is there, or for the empty path. -/
theorem makeDirectories_of_isDirectory {current : Location} {tree : Tree}
    (h : parent.bytes = [] ∨ tree.isDirectory current parent = true) :
    (makeDirectories parent : InTree _) current tree = (.ok (), tree) := by
  rw [makeDirectories, makeParents]
  split
  case isTrue => rfl
  case isFalse hne =>
    have hdir := h.resolve_left hne
    obtain ⟨location, hresolve⟩ := Tree.isDirectory_iff.mp hdir
    rw [InTree.bind_apply, InTree.makeDirectory_apply, Tree.makeDirectory_of_found hresolve]
    dsimp only
    rw [makeParents.settle, InTree.bind_apply, InTree.isDirectory_apply, hdir]
    rfl

end
end AbiFacts.Files
