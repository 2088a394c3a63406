import AbiFacts.Proofs.Files.Joining
import AbiFacts.Proofs.Files.Parents

/-! # Entries of directories

A directory lists what stands in it, each name once. In any tree the path of an entry leads to what
stands under its name in the directory, and a file that is written at the path is put there unless a
link stands in its place.
-/
namespace AbiFacts.Files

/-! ## Listing -/

namespace Tree

variable {tree : Tree} {current location : Location} {path : Path} {name : Name} {node : Node}

def childOf (directory : Location) (entry : Location × Node) : Option (Name × Node) :=
  match entry.1.getLast? with
  | some name => if entry.1.dropLast = directory then some (name, entry.2) else none
  | none => none

theorem childOf_eq_some {entry : Location × Node} :
    childOf location entry = some (name, node) ↔ entry = (location ++ [name], node) := by
  obtain ⟨place, found⟩ := entry
  constructor
  · intro h
    rw [childOf] at h
    split at h
    case h_1 last hlast =>
      obtain ⟨hhoused, heq⟩ := Option.ite_none_right_eq_some.mp h
      cases heq
      obtain ⟨housing, rfl⟩ := List.getLast?_eq_some_iff.mp hlast
      rw [← hhoused, List.dropLast_concat]
    case h_2 => cases h
  · rintro heq
    cases heq
    simp [childOf]

theorem children_eq_filterMap (tree : Tree) (location : Location) :
    tree.children location = tree.entries.filterMap (childOf location) := rfl

theorem mem_children : (name, node) ∈ tree.children location ↔
    tree.lookup (location ++ [name]) = some node := by
  rw [lookup_eq_some_iff (by simp), children_eq_filterMap, List.mem_filterMap]
  simp only [childOf_eq_some, exists_eq_right]

/-- No name stands twice in a directory. -/
theorem children_distinct (tree : Tree) (location : Location) :
    (tree.children location).Pairwise fun a b => a.1 ≠ b.1 := by
  have hkeys : tree.entries.Pairwise fun a b => a.1 ≠ b.1 :=
    List.pairwise_map.mp tree.isTree.nodup
  rw [children_eq_filterMap]
  refine hkeys.filterMap _ ?_
  rintro first second hne ⟨name, node⟩ hfirst ⟨other, found⟩ hsecond rfl
  rw [childOf_eq_some.mp hfirst, childOf_eq_some.mp hsecond] at hne
  exact hne rfl

/-- A directory is listed with each name once, and with its files told from the rest. -/
theorem list_of_directory
    (h : tree.resolve .look current path = .ok (.present location .directory)) :
    ∃ entries, tree.list current path = .ok entries ∧
      (entries.Pairwise fun a b => a.name ≠ b.name) ∧
      ∀ name, ⟨name, true⟩ ∈ entries ↔
        ∃ content, tree.lookup (location ++ [name]) = some (.file content) := by
  rw [list, h]
  refine ⟨_, rfl, List.pairwise_map.mpr (children_distinct tree location), fun name => ?_⟩
  rw [List.mem_map]
  constructor
  · rintro ⟨⟨other, node⟩, hmem, heq⟩
    rw [DirectoryEntry.mk.injEq] at heq
    obtain ⟨rfl, hfile⟩ := heq
    cases node with
    | file content => exact ⟨content, mem_children.mp hmem⟩
    | directory | link => cases hfile
  · rintro ⟨content, hfile⟩
    exact ⟨(name, .file content), mem_children.mpr hfile, rfl⟩

end Tree

/-! ## Paths of entries -/

namespace Path.IsEntry

variable {path above : Path} {name : Name}

theorem start_eq (h : path.IsEntry above name) (current : Location) :
    path.start current = above.start current := by
  rw [start, start, h.isAbsolute]

theorem namesFor (h : path.IsEntry above name) (purpose : Purpose) :
    Tree.namesFor purpose path = above.names ++ [name] := by
  rw [Tree.namesFor, steps, h.endsInSlash, if_neg Bool.false_ne_true, List.append_nil, ite_self,
    h.names]

/-- What is above the path of an entry can be looked up if it can, unless it is the empty path. -/
theorem isUsable_above (h : path.IsEntry above name) (husable : path.IsUsable)
    (hne : above.names ≠ []) : above.IsUsable where
  zero hzero := husable.zero (h.bytes.mem hzero)
  ne_nil hempty := hne (by rw [Path.names, hempty]; rfl)
  length := Nat.le_trans h.bytes.length_le husable.length

end Path.IsEntry

/-- A name that stands for no other place than an entry of a directory. -/
structure Name.IsPlain (name : Name) : Prop where
  ne_nil : name ≠ []
  ne_dot : name ≠ Path.dot
  ne_dotDot : name ≠ Path.dotDot

theorem Name.IsPlain.not_stay {name : Name} (h : name.IsPlain) : ¬ (name = [] ∨ name = Path.dot) :=
  not_or.mpr ⟨h.ne_nil, h.ne_dot⟩

namespace Tree

variable {before after : Tree} {current directory : Location} {path above : Path} {name : Name}
variable {node : Node} {content : List UInt8}

/-- Something other than a link that stands in a directory is where its path leads. -/
theorem resolve_look_entry (hentry : path.IsEntry above name) (habove : above.endsInSlash = false)
    (husable : path.IsUsable) (hplain : name.IsPlain) (hlength : name.length ≤ maxName)
    (hdir : after.resolve .look current above = .ok (.present directory .directory))
    (hnode : after.lookup (directory ++ [name]) = some node)
    (hlink : ∀ target, node ≠ .link target) :
    after.resolve .look current path = .ok (.present (directory ++ [name]) node) := by
  obtain ⟨-, ⟨left, hpasses⟩, hlookup⟩ := resolve_look_eq_ok.mp hdir
  rw [Path.steps, habove, if_neg Bool.false_ne_true, List.append_nil] at hpasses
  refine resolve_look_eq_ok.mpr ⟨husable, ⟨left, ?_⟩, hnode⟩
  rw [show path.steps = above.names ++ [name] from hentry.namesFor .look, hentry.start_eq]
  exact hpasses.append (.down hlookup hplain.not_stay hplain.ne_dotDot hlength hnode hlink .here)

/-! ## Parents of entries -/

/-- The way of a path goes along the first of its names to something. -/
theorem passes_of_isPrefix {tree : Tree} {names : List Name} {target : Location}
    (h : tree.resolve .look current path = .ok (.present target node))
    (hbegins : names <+: path.names) :
    ∃ left between, tree.Passes maxLinks names (path.start current) left between ∧
      (tree.lookup between).isSome ∧ (names = path.names → between = target) := by
  obtain ⟨rest, hnames⟩ := hbegins
  rw [resolve_of_isUsable (isUsable_of_resolve h), namesFor_of_ne_make (by decide), ← hnames,
    List.append_assoc] at h
  obtain ⟨left, between, hpasses, hfollow⟩ := passes_of_follow h (.inl rfl) fun _ => ⟨_, _, rfl⟩
  refine ⟨left, between, hpasses, ?_, fun hall => ?_⟩
  · cases hmore : rest ++ (if path.endsInSlash then [[]] else []) with
    | nil =>
      rw [hmore, follow_nil] at hfollow
      split at hfollow
      case h_1 hnode => exact Option.isSome_of_eq_some hnode
      case h_2 => cases hfollow
    | cons name more =>
      rw [hmore] at hfollow
      exact Option.isSome_of_eq_some (enters_of_follow hfollow).1
  · obtain rfl : rest = [] := by simpa [← hnames] using hall
    obtain ⟨node, -, hplace⟩ := follow_slash hfollow
    cases hplace
    rfl

/-- Below a directory that is there, only the last parent can be missing. -/
theorem AddsParents.eq_or_eq (h : before.AddsParents current path after) {project : Path}
    {first : Name} (hentry : path.IsEntry above name) (habove : above.IsEntry project first)
    (hproject : before.isDirectory current project = true)
    (hresolve : after.resolve .look current above = .ok (.present directory node))
    (location : Location) :
    after.lookup location = before.lookup location ∨ location = directory := by
  obtain heq | ⟨hnone, -, other, hbelow, hother⟩ := h location
  · exact .inl heq
  refine .inr ?_
  obtain ⟨left, between, hpasses, -, hsame⟩ := passes_of_isPrefix hother (List.prefix_refl _)
  obtain rfl := hsame rfl
  have hbegins : other.names = above.names ∨ other.names <+: project.names := by
    obtain ⟨next, rest, hsplit⟩ := hbelow.names
    have hall : other.names <+: above.names ++ [name] :=
      ⟨next :: rest, by rw [← hsplit, hentry.names]⟩
    have hshort : other.names <+: above.names := by
      refine (List.prefix_concat_iff.mp hall).resolve_left fun heq => ?_
      rw [hentry.names, heq] at hsplit
      simp at hsplit
    rw [habove.names] at hshort ⊢
    exact List.prefix_concat_iff.mp hshort
  have hstart : other.start current = above.start current := by
    rw [Path.start, Path.start, hbelow.isAbsolute, hentry.isAbsolute]
  obtain hlast | hfirst := hbegins
  · obtain ⟨_, there, hthere, -, hend⟩ := passes_of_isPrefix hresolve (List.prefix_refl _)
    obtain rfl := hend rfl
    rw [hlast, hstart] at hpasses
    exact (hpasses.unique hthere).2
  · obtain ⟨place, hplace⟩ := isDirectory_iff.mp hproject
    obtain ⟨_, there, hthere, hfound, -⟩ := passes_of_isPrefix hplace hfirst
    rw [hstart, habove.start_eq] at hpasses
    obtain rfl := (hpasses.unique (hthere.mono h.retains)).2
    rw [hnone] at hfound
    cases hfound

/-! ## Writing -/

/-- Writing a file takes nothing away but the content of a file. -/
theorem write_retains (h : before.write current path content = (.ok (), after)) :
    Retains before after := by
  obtain ⟨location, place, hresolve, rfl, hplace⟩ := place_of_write h
  have hholds := holds_of_resolve hresolve
  intro other node hnode
  by_cases hadmits : before.admits location
  · rw [lookup_put hadmits]
    split
    case isTrue heq =>
      subst heq
      obtain rfl | ⟨old, rfl⟩ := hplace
      · rw [Holds, hnode] at hholds
        cases hholds
      · rw [Holds, hnode] at hholds
        cases hholds
        exact .inr ⟨old, content, rfl, rfl⟩
    case isFalse => exact .inl hnode
  · rw [put, dif_neg hadmits]
    exact .inl hnode

structure WritesEntry (before : Tree) (directory : Location) (name : Name) (content : List UInt8)
    (after : Tree) : Prop where
  admits : before.admits (directory ++ [name])
  after_eq : after = before.put (directory ++ [name]) (.file content)

theorem WritesEntry.lookup (h : WritesEntry before directory name content after)
    (location : Location) : after.lookup location =
      if location = directory ++ [name] then some (.file content) else before.lookup location := by
  rw [h.after_eq, lookup_put h.admits]

/-- Writing at the path of an entry succeeds only below a directory. Only where a link stands in
the place of the entry is the file put elsewhere. -/
theorem write_entry (hentry : path.IsEntry above name) (habove : above.endsInSlash = false)
    (hne : above.names ≠ []) (hplain : name.IsPlain)
    (h : before.write current path content = (.ok (), after)) :
    path.IsUsable ∧ name.length ≤ maxName ∧
      ∃ directory, before.resolve .look current above = .ok (.present directory .directory) ∧
        ((∀ target, before.lookup (directory ++ [name]) ≠ some (.link target)) →
          WritesEntry before directory name content after) := by
  obtain ⟨location, place, hresolve, rfl, hplace⟩ := place_of_write h
  obtain ⟨husable, left, directory, hpasses, hfollow⟩ :=
    passes_of_resolve hresolve (hentry.namesFor .write) hplain.ne_nil
  obtain ⟨hdir, hlength, hcases⟩ :=
    follow_singleton_cases hplain.not_stay hplain.ne_dotDot hfollow
  refine ⟨husable, hlength, directory, ?_, fun hlink => ?_⟩
  · refine resolve_look_eq_ok.mpr ⟨hentry.isUsable_above husable hne, ⟨left, ?_⟩, hdir⟩
    rw [Path.steps, habove, if_neg Bool.false_ne_true, List.append_nil, ← hentry.start_eq]
    exact hpasses
  · have hmem : name ∈ namesFor .write path := by simp [hentry.namesFor]
    have hproper : name.isProper := isProper_of_walked (of_mem_namesFor husable name hmem)
      hplain.not_stay hplain.ne_dotDot hlength
    obtain ⟨hnone, rfl⟩ | ⟨target, htarget⟩ | ⟨node, hnode, rfl⟩ := hcases
    · obtain rfl : directory ++ [name] = location := by simpa using hplace
      exact ⟨admits_append hdir hproper (by simp [hnone]), rfl⟩
    · exact absurd htarget (hlink target)
    · obtain ⟨rfl, old, rfl⟩ : directory ++ [name] = location ∧ ∃ old, node = .file old := by
        simpa using hplace
      exact ⟨admits_append hdir hproper (by simp [hnode]), rfl⟩

end Tree
end AbiFacts.Files
