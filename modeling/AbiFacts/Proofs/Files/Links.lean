import AbiFacts.Proofs.Files.Leading

/-! # Where paths lead through links

In any tree, names lead through directories and links to one location. Following names goes the same
way and leaves the same links to follow, whatever the names that come after (`Passes.follow_append`,
`passes_of_follow`). So what a path leads to stays where it is as long as directories and links do.
-/
namespace AbiFacts.Files.Tree

variable {tree before after : Tree} {purpose : Purpose} {links left : Nat} {name : Name}
variable {names rest : List Name} {location target : Location} {place : Place}

/-! ## Ways -/

/-- The names lead from one location to another, through directories and at most so many links; the
second number is that of the links which may still be followed. -/
inductive Passes (tree : Tree) : Nat → List Name → Location → Nat → Location → Prop where
  | here {links : Nat} {location : Location} : tree.Passes links [] location links location
  | stay {links left : Nat} {name : Name} {names : List Name} {location target : Location}
      (hdir : tree.lookup location = some .directory) (hname : name = [] ∨ name = Path.dot)
      (hmore : tree.Passes links names location left target) :
      tree.Passes links (name :: names) location left target
  | up {links left : Nat} {names : List Name} {location target : Location}
      (hdir : tree.lookup location = some .directory)
      (hmore : tree.Passes links names location.dropLast left target) :
      tree.Passes links (Path.dotDot :: names) location left target
  | down {links left : Nat} {name : Name} {names : List Name} {location target : Location}
      {node : Node} (hdir : tree.lookup location = some .directory)
      (hstay : ¬ (name = [] ∨ name = Path.dot)) (hup : name ≠ Path.dotDot)
      (hlength : name.length ≤ maxName) (hnode : tree.lookup (location ++ [name]) = some node)
      (hlink : ∀ path, node ≠ .link path)
      (hmore : tree.Passes links names (location ++ [name]) left target) :
      tree.Passes links (name :: names) location left target
  | link {links left : Nat} {name : Name} {names : List Name} {location target : Location}
      {path : Path} (hdir : tree.lookup location = some .directory)
      (hstay : ¬ (name = [] ∨ name = Path.dot)) (hup : name ≠ Path.dotDot)
      (hlength : name.length ≤ maxName)
      (hnode : tree.lookup (location ++ [name]) = some (.link path))
      (hmore : tree.Passes links (path.steps ++ names) (path.start location) left target) :
      tree.Passes (links + 1) (name :: names) location left target

theorem follow_nil : tree.follow purpose links location [] =
    match tree.lookup location with
    | some node => .ok (.present location node)
    | none => .error .notFound := by
  cases links <;> rfl

theorem follow_cons : tree.follow purpose links location (name :: names) =
    match tree.lookup location with
    | some .directory =>
      if name = [] ∨ name = Path.dot then tree.follow purpose links location names
      else if name = Path.dotDot then tree.follow purpose links location.dropLast names
      else if purpose = .write ∧ names = [[]] then .error .isDirectory
      else if name.length > maxName then .error .nameTooLong
      else
        match tree.lookup (location ++ [name]) with
        | none => if names.isEmpty then .ok (.absent (location ++ [name])) else .error .notFound
        | some (.link path) =>
          if purpose = .make ∧ names = [] then .ok (.present (location ++ [name]) (.link path))
          else
            match links with
            | 0 => .error .tooManyLinks
            | links + 1 => tree.follow purpose links (path.start location) (path.steps ++ names)
        | some _ => tree.follow purpose links (location ++ [name]) names
    | _ => .error .notDirectory := by
  cases links <;> rfl

/-- What following a name of an entry from a directory comes to, where it does not fail. -/
inductive Continues (tree : Tree) (purpose : Purpose) (links : Nat) (location : Location)
    (name : Name) (names : List Name) (place : Place) : Prop where
  | missing (hnone : tree.lookup (location ++ [name]) = none) (hlast : names = [])
      (hplace : place = .absent (location ++ [name]))
  | linkItself {path : Path} (hnode : tree.lookup (location ++ [name]) = some (.link path))
      (hmake : purpose = .make) (hlast : names = [])
      (hplace : place = .present (location ++ [name]) (.link path))
  | link {path : Path} {fewer : Nat} (hnode : tree.lookup (location ++ [name]) = some (.link path))
      (hother : ¬ (purpose = .make ∧ names = [])) (hlinks : links = fewer + 1)
      (hmore : tree.follow purpose fewer (path.start location) (path.steps ++ names) = .ok place)
  | down {node : Node} (hnode : tree.lookup (location ++ [name]) = some node)
      (hlink : ∀ path, node ≠ .link path)
      (hmore : tree.follow purpose links (location ++ [name]) names = .ok place)

/-- What following one more name comes to, where it does not fail. -/
inductive Enters (tree : Tree) (purpose : Purpose) (links : Nat) (location : Location)
    (name : Name) (names : List Name) (place : Place) : Prop where
  | stay (hname : name = [] ∨ name = Path.dot)
      (hmore : tree.follow purpose links location names = .ok place)
  | up (hname : name = Path.dotDot)
      (hmore : tree.follow purpose links location.dropLast names = .ok place)
  | entry (hstay : ¬ (name = [] ∨ name = Path.dot)) (hup : name ≠ Path.dotDot)
      (hlength : name.length ≤ maxName)
      (hmore : tree.Continues purpose links location name names place)

theorem enters_of_follow (h : tree.follow purpose links location (name :: names) = .ok place) :
    tree.lookup location = some .directory ∧
      tree.Enters purpose links location name names place := by
  rw [follow_cons] at h
  split at h
  case h_2 => cases h
  case h_1 hdir =>
    refine ⟨hdir, ?_⟩
    split at h
    case isTrue hname => exact .stay hname h
    case isFalse hstay =>
      split at h
      case isTrue hname => exact .up hname h
      case isFalse hup =>
        split at h
        case isTrue => cases h
        case isFalse =>
          split at h
          case isTrue => cases h
          case isFalse hlong =>
            refine .entry hstay hup (Nat.le_of_not_lt hlong) ?_
            split at h
            case h_1 hnone =>
              split at h
              case isTrue hlast =>
                exact .missing hnone (List.isEmpty_iff.mp hlast) (Except.ok.inj h).symm
              case isFalse => cases h
            case h_2 path hnode =>
              split at h
              case isTrue hitself =>
                exact .linkItself hnode hitself.1 hitself.2 (Except.ok.inj h).symm
              case isFalse hother =>
                cases links with
                | zero => cases h
                | succ fewer => exact .link hnode hother rfl h
            case h_3 node hlink hnode => exact .down hnode hlink h

/-- Names after which a way is followed on in the same manner for every purpose: looking may stop
anywhere, and otherwise a name must come that is not empty. -/
def GoesOn (purpose : Purpose) (rest : List Name) : Prop :=
  purpose = .look ∨ ∃ name more, rest = name :: more ∧ name ≠ []

theorem GoesOn.not_write (h : GoesOn purpose rest) (names : List Name) :
    ¬ (purpose = .write ∧ names ++ rest = [[]]) := by
  rintro ⟨rfl, heq⟩
  obtain ⟨⟨⟩⟩ | ⟨name, more, rfl, hname⟩ := h
  have hmem : name ∈ [([] : Name)] := heq ▸ List.mem_append_right names (.head _)
  exact hname (List.mem_singleton.mp hmem)

theorem GoesOn.not_make (h : GoesOn purpose rest) (names : List Name) :
    ¬ (purpose = .make ∧ names ++ rest = []) := by
  rintro ⟨rfl, heq⟩
  obtain ⟨⟨⟩⟩ | ⟨name, more, rfl, -⟩ := h
  simp at heq

/-- Following names along a way goes to its end. -/
theorem Passes.follow_append (h : tree.Passes links names location left target)
    (hrest : GoesOn purpose rest) :
    tree.follow purpose links location (names ++ rest) = tree.follow purpose left target rest := by
  induction h with
  | here => rfl
  | stay hdir hname _ ih => rw [List.cons_append, follow_cons, hdir, ← ih]; exact if_pos hname
  | up hdir _ ih =>
    rw [List.cons_append, follow_cons, hdir, ← ih]
    exact (if_neg (by decide)).trans (if_pos rfl)
  | down hdir hstay hup hlength hnode hlink _ ih =>
    rw [List.cons_append, follow_cons, hdir]
    simp only [if_neg hstay, if_neg hup, if_neg (hrest.not_write _),
      if_neg (Nat.not_lt.mpr hlength)]
    rw [hnode, ← ih]
    split
    · cases ‹_ = none›
    · next heq => exact absurd (Option.some.inj heq) (hlink _)
    · rfl
  | link hdir hstay hup hlength hnode _ ih =>
    rw [List.cons_append, follow_cons, hdir]
    simp only [if_neg hstay, if_neg hup, if_neg (hrest.not_write _),
      if_neg (Nat.not_lt.mpr hlength)]
    rw [hnode]
    dsimp only
    rw [if_neg (hrest.not_make _), ← ih, List.append_assoc]

/-- Names that can be followed go along a way first and then from its end. -/
theorem passes_of_follow (h : tree.follow purpose links location (names ++ rest) = .ok place)
    (hrest : GoesOn purpose rest)
    (hfound : rest = [] → ∃ target node, place = .present target node) :
    ∃ left target, tree.Passes links names location left target ∧
      tree.follow purpose left target rest = .ok place := by
  -- A link leads to names of its own, but there is one link less to follow on them.
  induction links using Nat.strongRecOn generalizing names location with
  | _ links fewer =>
    induction names generalizing location with
    | nil => exact ⟨links, location, .here, h⟩
    | cons name names ih =>
      rw [List.cons_append] at h
      obtain ⟨hdir, hstep⟩ := enters_of_follow h
      cases hstep with
      | stay hname hmore =>
        obtain ⟨left, target, hpasses, hfollow⟩ := ih hmore
        exact ⟨left, target, .stay hdir hname hpasses, hfollow⟩
      | up hname hmore =>
        obtain ⟨left, target, hpasses, hfollow⟩ := ih hmore
        exact ⟨left, target, hname ▸ .up hdir hpasses, hfollow⟩
      | entry hstay hup hlength hmore =>
        cases hmore with
        | missing _ hlast hplace =>
          obtain ⟨_, _, rfl⟩ := hfound (List.append_eq_nil_iff.mp hlast).2
          cases hplace
        | linkItself _ hmake hlast => exact absurd ⟨hmake, hlast⟩ (hrest.not_make names)
        | link hnode _ hlinks hmore =>
          subst hlinks
          rw [← List.append_assoc] at hmore
          obtain ⟨left, target, hpasses, hfollow⟩ := fewer _ (Nat.lt_succ_self _) hmore
          exact ⟨left, target, .link hdir hstay hup hlength hnode hpasses, hfollow⟩
        | down hnode hlink hmore =>
          obtain ⟨left, target, hpasses, hfollow⟩ := ih hmore
          exact ⟨left, target, .down hdir hstay hup hlength hnode hlink hpasses, hfollow⟩

def Holds (tree : Tree) : Place → Prop
  | .present location node => tree.lookup location = some node
  | .absent location => tree.lookup location = none

theorem holds_of_follow (h : tree.follow purpose links location names = .ok place) :
    tree.Holds place := by
  induction links using Nat.strongRecOn generalizing names location with
  | _ links fewer =>
    induction names generalizing location with
    | nil =>
      rw [follow_nil] at h
      split at h
      case h_1 hnode => cases h; exact hnode
      case h_2 => cases h
    | cons name names ih =>
      obtain ⟨-, hstep⟩ := enters_of_follow h
      cases hstep with
      | stay _ hmore | up _ hmore => exact ih hmore
      | entry _ _ _ hmore =>
        cases hmore with
        | missing hnone _ hplace => exact hplace ▸ hnone
        | linkItself hnode _ _ hplace => exact hplace ▸ hnode
        | link _ _ hlinks hmore => exact fewer _ (hlinks ▸ Nat.lt_succ_self _) hmore
        | down _ _ hmore => exact ih hmore

namespace Passes

variable {middle : Nat} {between other : Location}

theorem append (h : tree.Passes links names location middle between)
    (hrest : tree.Passes middle rest between left target) :
    tree.Passes links (names ++ rest) location left target := by
  induction h with
  | here => exact hrest
  | stay hdir hname _ ih => exact .stay hdir hname (ih hrest)
  | up hdir _ ih => exact .up hdir (ih hrest)
  | down hdir hstay hup hlength hnode hlink _ ih =>
    exact .down hdir hstay hup hlength hnode hlink (ih hrest)
  | link hdir hstay hup hlength hnode _ ih =>
    exact .link hdir hstay hup hlength hnode (List.append_assoc .. ▸ ih hrest)

/-- Only one way goes along the names. -/
theorem unique {otherLeft : Nat} (h : tree.Passes links names location left target)
    (h' : tree.Passes links names location otherLeft other) :
    left = otherLeft ∧ target = other := by
  induction h with
  | here => cases h'; exact ⟨rfl, rfl⟩
  | stay _ hname _ ih =>
    cases h' with
    | stay _ _ hmore => exact ih hmore
    | up => exact absurd hname (by decide)
    | down _ hstay | link _ hstay => exact absurd hname hstay
  | up _ _ ih =>
    cases h' with
    | stay _ hname => exact absurd hname (by decide)
    | up _ hmore => exact ih hmore
    | down _ _ hup | link _ _ hup => exact absurd rfl hup
  | down _ hstay hup _ hnode hlink _ ih =>
    cases h' with
    | stay _ hname => exact absurd hname hstay
    | up => exact absurd rfl hup
    | down _ _ _ _ _ _ hmore => exact ih hmore
    | link _ _ _ _ hother =>
      rw [hnode, Option.some.injEq] at hother
      exact absurd hother (hlink _)
  | link _ hstay hup _ hnode _ ih =>
    cases h' with
    | stay _ hname => exact absurd hname hstay
    | up => exact absurd rfl hup
    | down _ _ _ _ hother hlink =>
      rw [hnode, Option.some.injEq] at hother
      exact absurd hother.symm (hlink _)
    | link _ _ _ _ hother hmore =>
      rw [hnode, Option.some.injEq, Node.link.injEq] at hother
      subst hother
      exact ih hmore

end Passes

/-! ## Trees that keep what they have -/

/-- Directories and links stay as they are, and files stay files. -/
def Retains (before after : Tree) : Prop :=
  ∀ location node, before.lookup location = some node →
    after.lookup location = some node ∨
      ∃ old new, node = .file old ∧ after.lookup location = some (.file new)

namespace Retains

theorem trans {between : Tree} (h : Retains before between) (h' : Retains between after) :
    Retains before after := by
  intro location node hnode
  obtain hsame | ⟨old, new, rfl, hnew⟩ := h location node hnode
  · exact h' location node hsame
  · obtain hsame | ⟨_, newer, _, hnewer⟩ := h' location _ hnew
    · exact .inr ⟨old, new, rfl, hsame⟩
    · exact .inr ⟨old, newer, rfl, hnewer⟩

theorem directory (h : Retains before after) (hdir : before.lookup location = some .directory) :
    after.lookup location = some .directory := by
  obtain hsame | ⟨_, _, heq, _⟩ := h _ _ hdir
  · exact hsame
  · cases heq

theorem link (h : Retains before after) {path : Path}
    (hlink : before.lookup location = some (.link path)) :
    after.lookup location = some (.link path) := by
  obtain hsame | ⟨_, _, heq, _⟩ := h _ _ hlink
  · exact hsame
  · cases heq

end Retains

/-- What a way goes through is kept. -/
theorem Passes.mono (hretains : Retains before after)
    (h : before.Passes links names location left target) :
    after.Passes links names location left target := by
  induction h with
  | here => exact .here
  | stay hdir hname _ ih => exact .stay (hretains.directory hdir) hname ih
  | up hdir _ ih => exact .up (hretains.directory hdir) ih
  | down hdir hstay hup hlength hnode hlink _ ih =>
    obtain hsame | ⟨_, new, _, hnew⟩ := hretains _ _ hnode
    · exact .down (hretains.directory hdir) hstay hup hlength hsame hlink ih
    · exact .down (hretains.directory hdir) hstay hup hlength hnew (by simp) ih
  | link hdir hstay hup hlength hnode _ ih =>
    exact .link (hretains.directory hdir) hstay hup hlength (hretains.link hnode) ih

/-! ## Resolving -/

section
variable {current : Location} {path : Path} {node : Node}

/-- A path leads to what stands at the end of its way. -/
theorem resolve_look_eq_ok : tree.resolve .look current path = .ok (.present target node) ↔
    path.IsUsable ∧ (∃ left, tree.Passes maxLinks path.steps (path.start current) left target) ∧
      tree.lookup target = some node := by
  constructor
  · intro h
    have husable := isUsable_of_resolve h
    rw [resolve_of_isUsable husable, ← List.append_nil (namesFor _ _)] at h
    obtain ⟨left, other, hpasses, hfollow⟩ := passes_of_follow h (.inl rfl) fun _ => ⟨_, _, rfl⟩
    rw [follow_nil] at hfollow
    split at hfollow
    case h_1 hnode =>
      cases hfollow
      exact ⟨husable, ⟨left, hpasses⟩, hnode⟩
    case h_2 => cases hfollow
  · rintro ⟨husable, ⟨left, hpasses⟩, hnode⟩
    have hfollow := hpasses.follow_append (.inl rfl : GoesOn .look [])
    rw [List.append_nil, follow_nil, hnode] at hfollow
    rw [resolve_of_isUsable husable]
    exact hfollow

/-- What a path leads to it leads to as long as the tree keeps what it has. -/
theorem resolve_look_mono (hretains : Retains before after)
    (h : before.resolve .look current path = .ok (.present target node)) {other : Node}
    (hother : after.lookup target = some other) :
    after.resolve .look current path = .ok (.present target other) := by
  obtain ⟨husable, ⟨left, hpasses⟩, -⟩ := resolve_look_eq_ok.mp h
  exact resolve_look_eq_ok.mpr ⟨husable, ⟨left, hpasses.mono hretains⟩, hother⟩

/-- A directory that a path led to before is the one that it leads to afterwards. -/
theorem location_eq_of_retains (hretains : Retains before after)
    (h : before.resolve .look current path = .ok (.present location .directory))
    (h' : after.resolve .look current path = .ok (.present target node)) : location = target := by
  have hdir := hretains.directory (resolve_look_eq_ok.mp h).2.2
  have hsame := (resolve_look_mono hretains h hdir).symm.trans h'
  cases hsame
  rfl

theorem holds_of_resolve (h : tree.resolve purpose current path = .ok place) :
    tree.Holds place := by
  rw [resolve_of_isUsable (isUsable_of_resolve h)] at h
  exact holds_of_follow h

theorem isDirectory_iff : tree.isDirectory current path = true ↔
    ∃ location, tree.resolve .look current path = .ok (.present location .directory) := by
  rw [isDirectory]
  split
  case h_1 location hresolve => simp [hresolve]
  case h_2 hno => simpa using hno

theorem ne_nil_of_mem_names (h : name ∈ path.names) : name ≠ [] := by
  simpa using (List.mem_filter.mp h).2

/-- A name that is neither empty nor a step leads on to an entry of a directory, or to the place
for one. -/
theorem follow_singleton_cases (hstay : ¬ (name = [] ∨ name = Path.dot)) (hup : name ≠ Path.dotDot)
    (h : tree.follow purpose links location [name] = .ok place) :
    tree.lookup location = some .directory ∧ name.length ≤ maxName ∧
      ((tree.lookup (location ++ [name]) = none ∧ place = .absent (location ++ [name])) ∨
        (∃ path, tree.lookup (location ++ [name]) = some (.link path)) ∨
        ∃ node, tree.lookup (location ++ [name]) = some node ∧
          place = .present (location ++ [name]) node) := by
  obtain ⟨hdir, hstep⟩ := enters_of_follow h
  cases hstep with
  | stay hname => exact absurd hname hstay
  | up hname => exact absurd hname hup
  | entry _ _ hlength hmore =>
    refine ⟨hdir, hlength, ?_⟩
    cases hmore with
    | missing hnone _ hplace => exact .inl ⟨hnone, hplace⟩
    | linkItself hnode | link hnode => exact .inr (.inl ⟨_, hnode⟩)
    | down hnode _ hmore =>
      rw [follow_nil, hnode] at hmore
      exact .inr (.inr ⟨_, hnode, (Except.ok.inj hmore).symm⟩)

/-- The way to a path ends in the directory of its last name. -/
theorem passes_of_resolve (h : tree.resolve purpose current path = .ok place)
    (hnames : namesFor purpose path = names ++ [name]) (hname : name ≠ []) :
    path.IsUsable ∧ ∃ left directory,
      tree.Passes maxLinks names (path.start current) left directory ∧
        tree.follow purpose left directory [name] = .ok place := by
  have husable := isUsable_of_resolve h
  rw [resolve_of_isUsable husable, hnames] at h
  exact ⟨husable, passes_of_follow h (.inr ⟨name, [], rfl, hname⟩) (by simp)⟩

end
end AbiFacts.Files.Tree
