import AbiFacts.Files.Path

/-! # The parents of paths

Splitting at slashes is undone by putting slashes between the parts. So the parent of a path starts
where the path starts and leads through its first names, at least one less.
-/
namespace AbiFacts.Files.Path

theorem split_eq_splitOn (bytes : List UInt8) : split bytes = bytes.splitOn slash := by
  induction bytes with
  | nil => simp [split]
  | cons byte bytes ih =>
    rw [split, List.splitOn_cons_eq_if_modifyHead, ← ih]
    by_cases hslash : byte = slash
    · simp [hslash]
    · have hparts : split bytes ≠ [] := ih ▸ List.splitOn_ne_nil slash bytes
      obtain ⟨part, parts, hsplit⟩ := List.exists_cons_of_ne_nil hparts
      simp [hslash, hsplit]

theorem split_ne_nil (bytes : List UInt8) : split bytes ≠ [] :=
  split_eq_splitOn bytes ▸ List.splitOn_ne_nil slash bytes

theorem split_slash_cons (bytes : List UInt8) : split (slash :: bytes) = [] :: split bytes := by
  rw [split, if_pos rfl]

theorem split_cons {byte : UInt8} (h : byte ≠ slash) (bytes : List UInt8) :
    ∃ part parts, split bytes = part :: parts ∧
      split (byte :: bytes) = (byte :: part) :: parts := by
  obtain ⟨part, parts, hsplit⟩ := List.exists_cons_of_ne_nil (split_ne_nil bytes)
  exact ⟨part, parts, hsplit, by simp [split, h, hsplit]⟩

/-- The parts hold bytes of the whole, but no slash. -/
theorem of_mem_split {bytes : List UInt8} {part : Name} (h : part ∈ split bytes) :
    ∀ byte ∈ part, byte ∈ bytes ∧ byte ≠ slash := by
  induction bytes generalizing part with
  | nil => simp_all [split]
  | cons first bytes ih =>
    have later : ∀ {part}, part ∈ split bytes →
        ∀ byte ∈ part, byte ∈ first :: bytes ∧ byte ≠ slash :=
      fun hpart byte hbyte => (ih hpart byte hbyte).imp_left (List.mem_cons_of_mem _)
    by_cases hslash : first = slash
    · rw [hslash, split_slash_cons] at h
      obtain rfl | hmem := List.mem_cons.mp h
      · exact fun byte hbyte => absurd hbyte List.not_mem_nil
      · exact later hmem
    · obtain ⟨part, parts, hsplit, hcons⟩ := split_cons hslash bytes
      rw [hcons] at h
      rw [hsplit] at later
      obtain rfl | hmem := List.mem_cons.mp h
      · intro byte hbyte
        obtain rfl | hbyte := List.mem_cons.mp hbyte
        · exact ⟨List.mem_cons_self, hslash⟩
        · exact later List.mem_cons_self byte hbyte
      · exact later (List.mem_cons_of_mem _ hmem)

theorem slash_notMem_of_mem_split {bytes : List UInt8} {part : Name} (h : part ∈ split bytes) :
    slash ∉ part :=
  fun hmem => (of_mem_split h slash hmem).2 rfl

theorem split_joined {parts : List Name} (h : ∀ part ∈ parts, slash ∉ part) (hne : parts ≠ []) :
    split (joined parts) = parts := by
  rw [split_eq_splitOn, joined, List.splitOn_intercalate slash h hne]

theorem names_joined {parts : List Name} (h : ∀ part ∈ parts, slash ∉ part) :
    names ⟨joined parts⟩ = parts.filter (· ≠ []) := by
  by_cases hne : parts = []
  · subst hne
    rfl
  · rw [names, split_joined h hne]

theorem names_slash_cons (bytes : List UInt8) : names ⟨slash :: bytes⟩ = names ⟨bytes⟩ := by
  simp [names, split_slash_cons]

/-- A path from the root is one whose first part is empty and not its last. -/
theorem isAbsolute_iff {path : Path} :
    path.isAbsolute = true ↔ ∃ part parts, split path.bytes = [] :: part :: parts := by
  obtain ⟨bytes⟩ := path
  cases bytes with
  | nil => simp [isAbsolute, split]
  | cons byte bytes =>
    by_cases hslash : byte = slash
    · obtain ⟨part, parts, hsplit⟩ := List.exists_cons_of_ne_nil (split_ne_nil bytes)
      simp [isAbsolute, hslash, split_slash_cons, hsplit]
    · obtain ⟨part, parts, -, hcons⟩ := split_cons hslash bytes
      simp [isAbsolute, hslash, hcons]

theorem isAbsolute_joined {parts : List Name} (h : ∀ part ∈ parts, slash ∉ part) :
    isAbsolute ⟨joined parts⟩ = true ↔ ∃ part rest, parts = [] :: part :: rest := by
  by_cases hne : parts = []
  · subst hne
    simp [joined, isAbsolute]
  · rw [isAbsolute_iff, split_joined h hne]

/-! ## Parts without those at the end that lead nowhere -/

theorem trimmed_isPrefixOf (parts : List Name) : trimmed parts <+: parts := by
  have hsuffix := List.dropWhile_suffix (fun part : Name => part = [] || part = dot)
    (l := parts.reverse)
  simpa [trimmed] using List.reverse_prefix.mpr hsuffix

/-- What is left of the parts ends in one that leads somewhere. -/
theorem trimmed_eq_concat {parts : List Name} (h : trimmed parts ≠ []) :
    ∃ first last, trimmed parts = first ++ [last] ∧ last ≠ [] := by
  obtain ⟨first, last, heq⟩ := (List.eq_nil_or_concat (trimmed parts)).resolve_left h
  rw [List.concat_eq_append] at heq
  refine ⟨first, last, heq, fun hlast => ?_⟩
  have hhead : (parts.reverse.dropWhile fun part => part = [] || part = dot).head? = some last := by
    rw [← List.getLast?_reverse, ← trimmed, heq]
    simp
  have := List.head?_dropWhile_not (fun part : Name => part = [] || part = dot) parts.reverse
  rw [hhead] at this
  simp [hlast] at this

/-- Without the last part that leads somewhere, and what follows it, the first parts are left. -/
theorem trimmed_dropLast {parts : List Name} (h : trimmed parts ≠ []) :
    ∃ last rest, parts = trimmed (trimmed parts).dropLast ++ rest ∧ last ∈ rest ∧ last ≠ [] := by
  obtain ⟨first, last, heq, hlast⟩ := trimmed_eq_concat h
  obtain ⟨after, hparts⟩ := trimmed_isPrefixOf parts
  obtain ⟨between, hfirst⟩ := trimmed_isPrefixOf first
  rw [heq, List.dropLast_concat]
  refine ⟨last, between ++ [last] ++ after, ?_, by simp, hlast⟩
  calc parts = first ++ [last] ++ after := by rw [← heq, hparts]
    _ = trimmed first ++ between ++ [last] ++ after := by rw [hfirst]
    _ = trimmed first ++ (between ++ [last] ++ after) := by simp

theorem filter_trimmed_dropLast {parts : List Name} (h : trimmed parts ≠ []) :
    ∃ name rest, parts.filter (· ≠ []) =
      (trimmed (trimmed parts).dropLast).filter (· ≠ []) ++ name :: rest := by
  obtain ⟨last, rest, hparts, hmem, hlast⟩ := trimmed_dropLast h
  have hne : rest.filter (· ≠ []) ≠ [] :=
    List.ne_nil_of_mem (List.mem_filter.mpr ⟨hmem, decide_eq_true hlast⟩)
  obtain ⟨name, names, heq⟩ := List.exists_cons_of_ne_nil hne
  exact ⟨name, names, by rw [← heq, ← List.filter_append, ← hparts]⟩

theorem trimmed_dropLast_isPrefixOf (parts : List Name) :
    trimmed (trimmed parts).dropLast <+: parts :=
  (trimmed_isPrefixOf _).trans ((List.dropLast_prefix _).trans (trimmed_isPrefixOf parts))

/-! ## Parents -/

/-- The path starts where the other starts and leads through more names than its names. -/
structure IsBelow (path parent : Path) : Prop where
  names : ∃ name rest, path.names = parent.names ++ name :: rest
  isAbsolute : parent.isAbsolute = path.isAbsolute

theorem IsBelow.trans {path parent above : Path} (h : path.IsBelow parent)
    (h' : parent.IsBelow above) : path.IsBelow above := by
  obtain ⟨name, rest, hnames⟩ := h.names
  obtain ⟨first, between, hbetween⟩ := h'.names
  refine ⟨⟨first, between ++ name :: rest, ?_⟩, h'.isAbsolute.trans h.isAbsolute⟩
  rw [hnames, hbetween, List.append_assoc, List.cons_append]

/-- The first parts of a path, put together again, are above it. -/
theorem isBelow_joined {path : Path} (lead : List Name) {parts : List Name}
    (hrelative : path.isAbsolute = false) (hsplit : split path.bytes = lead ++ parts)
    (htrimmed : trimmed parts ≠ []) :
    path.IsBelow ⟨joined (lead ++ trimmed (trimmed parts).dropLast)⟩ := by
  have hfirst : lead ++ trimmed (trimmed parts).dropLast <+: split path.bytes := by
    rw [hsplit, List.prefix_append_right_inj]
    exact trimmed_dropLast_isPrefixOf parts
  have hfree : ∀ part ∈ lead ++ trimmed (trimmed parts).dropLast, slash ∉ part :=
    fun _ hmem => slash_notMem_of_mem_split (hfirst.mem hmem)
  refine ⟨?_, ?_⟩
  · obtain ⟨name, rest, heq⟩ := filter_trimmed_dropLast htrimmed
    refine ⟨name, rest, ?_⟩
    rw [names_joined hfree, Path.names, hsplit, List.filter_append, List.filter_append, heq,
      List.append_assoc]
  · rw [hrelative, Bool.eq_false_iff, ne_eq, isAbsolute_joined hfree]
    rintro ⟨part, rest, heq⟩
    obtain ⟨after, hafter⟩ := hfirst
    rw [heq] at hafter
    rw [isAbsolute_iff.mpr ⟨part, rest ++ after, hafter.symm⟩] at hrelative
    cases hrelative

theorem isBelow_of_parent? {path parent : Path} (h : path.parent? = some parent) :
    path.IsBelow parent := by
  unfold parent? at h
  dsimp only at h
  split at h
  case h_1 part parts hsplit =>
    -- From the root: the empty part before the first slash names nothing.
    split at h
    case h_1 => cases h
    case h_2 htrimmed =>
      cases h
      have hfree : ∀ other ∈ trimmed (trimmed (part :: parts)).dropLast, slash ∉ other := by
        intro other hmem
        have hpart : other ∈ split path.bytes := by
          rw [hsplit]
          exact List.mem_cons_of_mem _ ((trimmed_dropLast_isPrefixOf _).mem hmem)
        exact slash_notMem_of_mem_split hpart
      refine ⟨?_, (isAbsolute_iff.mpr ⟨part, parts, hsplit⟩).symm⟩
      rw [names_slash_cons, names_joined hfree, Path.names, hsplit]
      exact filter_trimmed_dropLast htrimmed
  case h_2 parts hsplit =>
    have hrelative : path.isAbsolute = false := by
      rw [Bool.eq_false_iff, ne_eq, isAbsolute_iff, hsplit]
      simp
    split at h
    case h_1 =>
      cases h
      exact ⟨⟨dot, parts.filter (· ≠ []), by rw [Path.names, hsplit]; rfl⟩, hrelative.symm⟩
    case h_2 htrimmed =>
      cases h
      exact isBelow_joined [dot] hrelative hsplit htrimmed
  case h_3 hroot _ =>
    have hrelative : path.isAbsolute = false := by
      rw [Bool.eq_false_iff, ne_eq, isAbsolute_iff]
      exact fun ⟨part, parts, hsplit⟩ => hroot part parts hsplit
    split at h
    case h_1 => cases h
    case h_2 htrimmed =>
      cases h
      exact isBelow_joined [] hrelative (List.nil_append _).symm htrimmed

end AbiFacts.Files.Path
