import AbiFacts.Files.Access
import AbiFacts.Proofs.Files.Paths
import Mathlib.Data.List.Induction

/-! # Where paths lead without links

In a tree of files and directories only, names lead through directories to one location, and that
location can be read off the names. Resolving a path finds it if the tree has the directories on the
way.
-/
namespace AbiFacts.Files

/-! ## Destinations -/

/-- The location that a name leads to, whatever the tree. -/
def Location.enter (location : Location) (name : Name) : Location :=
  if name = [] ∨ name = Path.dot then location
  else if name = Path.dotDot then location.dropLast
  else location ++ [name]

namespace Path

def start (current : Location) (path : Path) : Location :=
  if path.isAbsolute then [] else current

/-- The location that a path leads to, each `..` taken back as it stands. -/
def destination (current : Location) (path : Path) : Location :=
  path.names.foldl Location.enter (path.start current)

/-- Can a path be looked up at all? -/
structure IsUsable (path : Path) : Prop where
  zero : 0 ∉ path.bytes
  ne_nil : path.bytes ≠ []
  length : path.bytes.length ≤ maxPath

end Path

namespace Tree

def IsLinkless (tree : Tree) : Prop :=
  ∀ location target, tree.lookup location ≠ some (.link target)

/-- The names lead through directories of the tree from one location to another. -/
inductive Leads (tree : Tree) : List Name → Location → Location → Prop where
  | here {location : Location} : tree.Leads [] location location
  | stay {name : Name} {names : List Name} {location target : Location} :
    tree.lookup location = some .directory → name = [] ∨ name = Path.dot →
    tree.Leads names location target → tree.Leads (name :: names) location target
  | up {names : List Name} {location target : Location} :
    tree.lookup location = some .directory → tree.Leads names location.dropLast target →
    tree.Leads (Path.dotDot :: names) location target
  | down {name : Name} {names : List Name} {location target : Location} :
    tree.lookup location = some .directory → ¬ (name = [] ∨ name = Path.dot) →
    name ≠ Path.dotDot → name.length ≤ maxName → tree.Leads names (location ++ [name]) target →
    tree.Leads (name :: names) location target

namespace Leads

variable {tree other : Tree} {names : List Name} {location target : Location}

theorem eq_foldl (h : tree.Leads names location target) :
    target = names.foldl Location.enter location := by
  induction h with
  | here => rfl
  | stay _ hname _ ih => rw [List.foldl_cons, Location.enter, if_pos hname, ih]
  | up _ _ ih => rw [List.foldl_cons, Location.enter, if_neg (by decide), if_pos rfl, ih]
  | down _ hname hup _ _ ih =>
    rw [List.foldl_cons, Location.enter, if_neg hname, if_neg hup, ih]

/-- Something is found only where the way there starts at something. -/
theorem lookup_isSome (h : tree.Leads names location target)
    (htarget : (tree.lookup target).isSome) :
    (tree.lookup location).isSome := by
  cases h with
  | here => exact htarget
  | stay hdir | up hdir | down hdir => simp [hdir]

/-- Unless it takes a step up, a way only goes further down. -/
theorem dotDot_mem_or_isPrefixOf (h : tree.Leads names location target) :
    Path.dotDot ∈ names ∨ location <+: target := by
  induction h with
  | here => exact .inr (List.prefix_refl _)
  | stay _ _ _ ih => exact ih.imp_left (List.mem_cons_of_mem _)
  | up => exact .inl List.mem_cons_self
  | down _ _ _ _ _ ih =>
    exact ih.imp (List.mem_cons_of_mem _) ((List.prefix_append _ _).trans ·)

/-- A way is there in each tree that has the directories on it. Without a step up they all lie above
its end. -/
theorem mono (h : tree.Leads names location target)
    (hkeep : ∀ between, Path.dotDot ∈ names ∨ between <+: target →
      tree.lookup between = some .directory → other.lookup between = some .directory) :
    other.Leads names location target := by
  induction h with
  | here => exact .here
  | stay hdir hname hrest ih =>
    refine .stay (hkeep _ ?_ hdir) hname (ih fun between hbetween => hkeep between ?_)
    · exact hrest.dotDot_mem_or_isPrefixOf.imp_left (List.mem_cons_of_mem _)
    · exact hbetween.imp_left (List.mem_cons_of_mem _)
  | up hdir _ ih =>
    exact .up (hkeep _ (.inl List.mem_cons_self) hdir)
      (ih fun between _ => hkeep between (.inl List.mem_cons_self))
  | down hdir hname hup hlength hrest ih =>
    refine .down (hkeep _ ?_ hdir) hname hup hlength (ih fun between hbetween => hkeep between ?_)
    · exact hrest.dotDot_mem_or_isPrefixOf.imp (List.mem_cons_of_mem _)
        ((List.prefix_append _ _).trans ·)
    · exact hbetween.imp_left (List.mem_cons_of_mem _)

end Leads
/-! ## What the shape of a tree says -/

theorem lookup_dropLast {tree : Tree} {location : Location} {node : Node}
    (h : tree.lookup location = some node) : tree.lookup location.dropLast = some .directory := by
  by_cases hroot : location = []
  · subst hroot
    rfl
  · exact lookup_eq_directory_iff.mpr (tree.isTree.housed _ ((lookup_eq_some_iff hroot).mp h))

/-- Nothing is in a directory that is not there. -/
theorem lookup_append_of_none {tree : Tree} {location : Location} (h : tree.lookup location = none)
    (name : Name) : tree.lookup (location ++ [name]) = none := by
  rw [Option.eq_none_iff_forall_ne_some]
  intro node hnode
  have hdir := lookup_dropLast hnode
  rw [List.dropLast_concat, h] at hdir
  cases hdir

/-- Everything above something is a directory. -/
theorem lookup_above {tree : Tree} {above location : Location} {node : Node}
    (h : tree.lookup location = some node) (habove : above <+: location) (hne : above ≠ location) :
    tree.lookup above = some .directory := by
  obtain ⟨rest, rfl⟩ := habove
  induction rest using List.reverseRecOn generalizing node with
  | nil => simp at hne
  | append_singleton rest name ih =>
    have hhoused := lookup_dropLast h
    rw [← List.append_assoc, List.dropLast_concat] at hhoused
    by_cases hrest : rest = []
    · simpa [hrest] using hhoused
    · exact ih hhoused (by simp [hrest])

theorem admits_of_lookup {tree : Tree} {location : Location} {node : Node}
    (h : tree.lookup location = some node) (hnode : node ≠ .directory) : tree.admits location := by
  have hroot : location ≠ [] := by
    rintro rfl
    exact hnode (Option.some.inj h).symm
  have hmem := (lookup_eq_some_iff hroot).mp h
  refine admits_iff.mpr ⟨tree.isTree.named _ hmem, tree.isTree.housed _ hmem, ?_⟩
  rw [← lookup_eq_directory_iff, h, Option.some.injEq]
  exact hnode

theorem lookup_ne_directory_of_admits {tree : Tree} {location : Location}
    (h : tree.admits location) : tree.lookup location ≠ some .directory := by
  rw [ne_eq, lookup_eq_directory_iff]
  exact (admits_iff.mp h).2.2

/-- Under a proper name something can be put in a directory, unless it is the place of another. -/
theorem admits_append {tree : Tree} {location : Location} {name : Name}
    (hdir : tree.lookup location = some .directory) (hname : name.isProper)
    (hno : tree.lookup (location ++ [name]) ≠ some .directory) :
    tree.admits (location ++ [name]) := by
  refine admits_iff.mpr ⟨⟨name, List.getLast?_concat, hname⟩, ?_, ?_⟩
  · rwa [List.dropLast_concat, ← lookup_eq_directory_iff]
  · rwa [← lookup_eq_directory_iff]

/-! ## Walking and resolving -/

/-- The names lead to the place, which is as the tree says. Where nothing is, something can be
put. -/
def Finds (tree : Tree) (names : List Name) (location : Location) : Place → Prop
  | .present target node => tree.Leads names location target ∧ tree.lookup target = some node
  | .absent target =>
    tree.Leads names location target ∧ tree.lookup target = none ∧ tree.admits target

section
variable {tree : Tree} {purpose : Purpose} {current : Location} {path : Path} {place : Place}
variable {expand : Location → List Name → Except SystemError Place}
variable {names rest : List Name} {location next target : Location} {node : Node}

theorem Finds.imp
    (hleads : ∀ target, tree.Leads rest next target → tree.Leads names location target)
    (h : tree.Finds rest next place) : tree.Finds names location place := by
  cases place with
  | present target node => exact ⟨hleads _ h.1, h.2⟩
  | absent target => exact ⟨hleads _ h.1, h.2⟩

theorem isProper_of_walked {name : Name} (hname : ∀ byte ∈ name, byte ≠ 0 ∧ byte ≠ Path.slash)
    (hstay : ¬ (name = [] ∨ name = Path.dot)) (hup : name ≠ Path.dotDot)
    (hlength : name.length ≤ maxName) : name.isProper = true := by
  have hslash : Path.slash ∉ name := fun hmem => (hname _ hmem).2 rfl
  have hzero : 0 ∉ name := fun hmem => (hname _ hmem).1 rfl
  rw [not_or] at hstay
  simp [Name.isProper, hstay, hup, hlength, hslash, hzero]

/-- A walk finds the place that the names lead to. -/
theorem finds_of_walk (hlinkless : tree.IsLinkless)
    (hnames : ∀ name ∈ names, ∀ byte ∈ name, byte ≠ 0 ∧ byte ≠ Path.slash)
    (h : tree.walk purpose expand names location = .ok place) :
    tree.Finds names location place := by
  induction names generalizing location with
  | nil =>
    rw [walk] at h
    split at h
    case h_1 node hnode =>
      cases h
      exact ⟨.here, hnode⟩
    case h_2 => cases h
  | cons name names ih =>
    obtain ⟨hname, hnames⟩ := List.forall_mem_cons.mp hnames
    rw [walk] at h
    split at h
    case h_2 => cases h
    case h_1 hdir =>
      by_cases hstay : name = [] ∨ name = Path.dot
      · rw [if_pos hstay] at h
        exact (ih hnames h).imp fun _ => .stay hdir hstay
      rw [if_neg hstay] at h
      by_cases hup : name = Path.dotDot
      · rw [if_pos hup] at h
        rw [hup]
        exact (ih hnames h).imp fun _ => .up hdir
      rw [if_neg hup] at h
      split at h
      case isTrue => cases h
      case isFalse =>
        split at h
        case isTrue => cases h
        case isFalse hlong =>
          have hlength : name.length ≤ maxName := Nat.le_of_not_lt hlong
          split at h
          case h_1 hnone =>
            split at h
            case isTrue hlast =>
              cases h
              rw [List.isEmpty_iff.mp hlast]
              have hproper := isProper_of_walked hname hstay hup hlength
              refine ⟨.down hdir hstay hup hlength .here, hnone, admits_append hdir hproper ?_⟩
              simp [hnone]
            case isFalse => cases h
          case h_2 target htarget => exact absurd htarget (hlinkless _ _)
          case h_3 => exact (ih hnames h).imp fun _ => .down hdir hstay hup hlength

/-- What stands where the names lead is found by looking. -/
theorem Leads.walk_look (hlinkless : tree.IsLinkless) (h : tree.Leads names location target)
    (hnode : tree.lookup target = some node) :
    tree.walk .look expand names location = .ok (.present target node) := by
  induction h with
  | here => rw [walk, hnode]
  | stay hdir hstay _ ih => rw [walk, hdir, if_pos hstay, ih hnode]
  | up hdir _ ih => rw [walk, hdir, if_neg (by decide), if_pos rfl, ih hnode]
  | down hdir hstay hup hlength hleads ih =>
    obtain ⟨entered, hentered⟩ := Option.isSome_iff_exists.mp
      (hleads.lookup_isSome (Option.isSome_of_eq_some hnode))
    rw [walk, hdir]
    simp only [if_neg hstay, if_neg hup, reduceCtorEq, false_and, if_false,
      if_neg (Nat.not_lt.mpr hlength)]
    cases entered with
    | link elsewhere => exact absurd hentered (hlinkless _ _)
    | file | directory => rw [hentered, ih hnode]

theorem follow_eq_walk (tree : Tree) (purpose : Purpose) (links : Nat) (location : Location)
    (names : List Name) :
    ∃ expand,
      tree.follow purpose links location names = tree.walk purpose expand names location := by
  cases links with
  | zero => exact ⟨_, rfl⟩
  | succ links => exact ⟨_, rfl⟩

def namesFor (purpose : Purpose) (path : Path) : List Name :=
  if purpose = .make then path.names else path.steps

theorem resolve_of_isUsable (h : path.IsUsable) :
    tree.resolve purpose current path =
      tree.follow purpose maxLinks (path.start current) (namesFor purpose path) := by
  have hzero : path.bytes.contains 0 = false := by simpa using h.zero
  rw [resolve, hzero, if_neg Bool.false_ne_true, if_neg h.ne_nil, if_neg (Nat.not_lt.mpr h.length)]
  rfl

theorem isUsable_of_resolve (h : tree.resolve purpose current path = .ok place) :
    path.IsUsable := by
  rw [resolve] at h
  split at h
  case isTrue => cases h
  case isFalse hzero =>
    split at h
    case isTrue => cases h
    case isFalse hne =>
      split at h
      case isTrue => cases h
      case isFalse hlong => exact ⟨by simpa using hzero, hne, Nat.le_of_not_lt hlong⟩

theorem of_mem_namesFor (h : path.IsUsable) :
    ∀ name ∈ namesFor purpose path, ∀ byte ∈ name, byte ≠ 0 ∧ byte ≠ Path.slash := by
  have hnames : ∀ name ∈ path.names, ∀ byte ∈ name, byte ≠ 0 ∧ byte ≠ Path.slash := by
    intro name hname byte hbyte
    obtain ⟨hmem, hslash⟩ := Path.of_mem_split (List.mem_filter.mp hname).1 byte hbyte
    exact ⟨fun hzero => h.zero (hzero ▸ hmem), hslash⟩
  intro name hname
  rw [namesFor] at hname
  split at hname
  case isTrue => exact hnames name hname
  case isFalse =>
    obtain hname | hend := List.mem_append.mp hname
    · exact hnames name hname
    · have hempty : name = [] := by
        split at hend <;> simp_all
      simp [hempty]

/-- Resolving a path finds the place that its names lead to. -/
theorem finds_of_resolve (hlinkless : tree.IsLinkless)
    (h : tree.resolve purpose current path = .ok place) :
    tree.Finds (namesFor purpose path) (path.start current) place := by
  have husable := isUsable_of_resolve h
  obtain ⟨expand, hfollow⟩ :=
    follow_eq_walk tree purpose maxLinks (path.start current) (namesFor purpose path)
  rw [resolve_of_isUsable husable, hfollow] at h
  exact finds_of_walk hlinkless (of_mem_namesFor husable) h

/-- What stands where a path leads is found by looking. -/
theorem Leads.resolve_look (hlinkless : tree.IsLinkless) (husable : path.IsUsable)
    (h : tree.Leads path.steps (path.start current) target)
    (hnode : tree.lookup target = some node) :
    tree.resolve .look current path = .ok (.present target node) := by
  obtain ⟨expand, hfollow⟩ := follow_eq_walk tree .look maxLinks (path.start current) path.steps
  rw [resolve_of_isUsable husable]
  exact hfollow.trans (h.walk_look hlinkless hnode)

/-- The place that a path leads to is its destination. -/
theorem Leads.eq_destination (h : tree.Leads (namesFor purpose path) (path.start current) target) :
    target = path.destination current := by
  rw [h.eq_foldl, namesFor]
  split
  case isTrue => rfl
  case isFalse =>
    rw [Path.steps, List.foldl_append]
    split
    case isTrue => simp [Path.destination, Location.enter]
    case isFalse => rfl

end
end Tree
end AbiFacts.Files
