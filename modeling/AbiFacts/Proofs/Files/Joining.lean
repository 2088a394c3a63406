import AbiFacts.Proofs.Files.Paths

/-! # Paths of directory entries

A plain name that is joined to a path comes after the names that the path leads through. Texts
without slashes are plain, since no other character has the byte of a slash in it.
-/
namespace AbiFacts

/-! ## Bytes of texts -/

namespace Text

/-- A character has a byte of the ASCII range only if that byte is all of it. -/
theorem toNat_eq_of_mem_utf8EncodeChar {c : Char} {byte : UInt8}
    (h : byte ∈ String.utf8EncodeChar c) (hascii : byte.toNat < 0x80) : c.toNat = byte.toNat := by
  have hother : ∀ n, 0x80 ≤ n → n < 0x100 → byte ≠ UInt8.ofNat n := by
    rintro n hle hlt rfl
    rw [UInt8.toNat_ofNat_of_lt' hlt] at hascii
    omega
  rw [String.utf8EncodeChar] at h
  split at h
  case isTrue hone =>
    have hsize : c.val.toNat < UInt8.size := Nat.lt_of_le_of_lt hone (by decide)
    rw [List.mem_singleton.mp h, UInt8.toNat_ofNat_of_lt' hsize]
    rfl
  case isFalse =>
    split at h
    case isTrue =>
      simp only [List.mem_cons, List.not_mem_nil, or_false] at h
      rcases h with h | h <;> exact absurd h (hother _ (by omega) (by omega))
    case isFalse =>
      split at h
      case isTrue =>
        simp only [List.mem_cons, List.not_mem_nil, or_false] at h
        rcases h with h | h | h <;> exact absurd h (hother _ (by omega) (by omega))
      case isFalse =>
        simp only [List.mem_cons, List.not_mem_nil, or_false] at h
        rcases h with h | h | h | h <;> exact absurd h (hother _ (by omega) (by omega))

theorem toBytes_eq_flatMap (text : String) :
    toBytes text = text.toList.flatMap String.utf8EncodeChar := by
  rw [toBytes, ← String.ofList_toList (s := text), String.toByteArray_ofList, List.utf8Encode,
    List.data_toByteArray, String.toList_ofList]

theorem toBytes_append (first second : String) :
    toBytes (first ++ second) = toBytes first ++ toBytes second := by
  simp [toBytes_eq_flatMap]

theorem exists_char_of_mem_toBytes {text : String} {byte : UInt8} (h : byte ∈ toBytes text)
    (hascii : byte.toNat < 0x80) : ∃ c ∈ text.toList, c.toNat = byte.toNat := by
  rw [toBytes_eq_flatMap, List.mem_flatMap] at h
  obtain ⟨c, hc, hmem⟩ := h
  exact ⟨c, hc, toNat_eq_of_mem_utf8EncodeChar hmem hascii⟩

end Text

namespace Files

theorem Name.slash_notMem_ofString {text : String} (h : '/' ∉ text.toList) :
    Path.slash ∉ Name.ofString text := by
  intro hmem
  obtain ⟨c, hc, hslash⟩ := Text.exists_char_of_mem_toBytes hmem (by decide)
  have hc' : c = '/' := Char.toNat_inj.mp hslash
  exact h (hc' ▸ hc)

theorem Name.ofString_injective {first second : String}
    (h : Name.ofString first = Name.ofString second) : first = second := by
  have htexts := congrArg Text.ofBytes? h
  simpa [Name.ofString] using htexts

/-! ## Joined paths -/

namespace Path

theorem split_append_slash (first rest : List UInt8) :
    split (first ++ slash :: rest) = split first ++ split rest := by
  induction first with
  | nil => exact split_slash_cons rest
  | cons byte first ih =>
    by_cases hslash : byte = slash
    · rw [hslash, List.cons_append, split_slash_cons, split_slash_cons, ih, List.cons_append]
    · obtain ⟨part, parts, hsplit, hcons⟩ := split_cons hslash first
      obtain ⟨other, others, hall, hmore⟩ := split_cons hslash (first ++ slash :: rest)
      rw [ih, hsplit, List.cons_append, List.cons.injEq] at hall
      rw [List.cons_append, hmore, hcons, ← hall.1, ← hall.2, List.cons_append]

theorem names_append_slash (first rest : List UInt8) :
    names ⟨first ++ slash :: rest⟩ = names ⟨first⟩ ++ names ⟨rest⟩ := by
  rw [names, split_append_slash, List.filter_append]
  rfl

theorem names_of_slash_notMem {name : Name} (hne : name ≠ []) (hslash : slash ∉ name) :
    names ⟨name⟩ = [name] := by
  have hjoined : joined [name] = name := by simp [joined]
  have hnames := names_joined (List.forall_mem_singleton.mpr hslash)
  rw [hjoined] at hnames
  simpa [hne] using hnames

/-- The path leads on from another by this name, and is no path to a directory only. -/
structure IsEntry (path directory : Path) (name : Name) : Prop where
  names : path.names = directory.names ++ [name]
  isAbsolute : path.isAbsolute = directory.isAbsolute
  endsInSlash : path.endsInSlash = false
  bytes : directory.bytes <+: path.bytes

/-- A plain name joined to a path makes the path of an entry. -/
theorem isEntry_join (directory : Path) {name : Name} (hne : name ≠ []) (hslash : slash ∉ name) :
    (directory.join ⟨name⟩).IsEntry directory name := by
  obtain ⟨bytes⟩ := directory
  have hhead : name.head? ≠ some slash := fun h => hslash (List.mem_of_head? h)
  have hlast : name.getLast? ≠ some slash := fun h => hslash (List.mem_of_getLast? h)
  have hrelative : isAbsolute ⟨name⟩ = false := by simpa [isAbsolute] using hhead
  have hnames := names_of_slash_notMem hne hslash
  have hend : ∀ first, endsInSlash ⟨first ++ name⟩ = false := by
    intro first
    rw [List.getLast?_eq_some_getLast hne] at hlast
    rw [endsInSlash, List.getLast?_append, List.getLast?_eq_some_getLast hne]
    simpa using hlast
  rw [join, hrelative, if_neg Bool.false_ne_true]
  split
  case isTrue hends =>
    obtain rfl | ⟨first, last, rfl⟩ := List.eq_nil_or_concat bytes
    · exact ⟨by simpa [names, split] using hnames, by simpa [isAbsolute] using hrelative, hend [],
        List.nil_prefix⟩
    · have hlast : last = slash := by simpa [endsInSlash] using hends
      subst hlast
      simp only [List.concat_eq_append, List.append_assoc, List.singleton_append] at hends ⊢
      refine ⟨?_, ?_, ?_, ?_⟩
      · rw [names_append_slash, names_append_slash, hnames]
        simp [names, split]
      · cases first <;> simp [isAbsolute]
      · simpa using hend (first ++ [slash])
      · exact ⟨name, by simp⟩
  case isFalse hmore =>
    have hbytes : bytes ≠ [] := by
      rintro rfl
      simp at hmore
    refine ⟨?_, ?_, ?_, List.prefix_append _ _⟩
    · rw [names_append_slash, hnames]
    · obtain ⟨byte, rest, rfl⟩ := List.exists_cons_of_ne_nil hbytes
      simp [isAbsolute]
    · simpa using hend (bytes ++ [slash])

end Path
end Files
end AbiFacts
