import AbiFacts.Lookup
import AbiFacts.Proofs.Text.Trimming
import Mathlib.Data.List.Forall2

/-! # Spellings of kinds

A text names a kind exactly if it is a spelling of its name: blanks, a word that has for each
character of the name this character up to the case of ASCII letters, or an underscore for a hyphen,
and blanks again (`kinds_are_read_from_their_spellings`).
-/
namespace AbiFacts.Kind

/-! ## Characters -/

structure IsCapitalOf (capital small : Char) : Prop where
  least : 0x41 ≤ capital.toNat
  greatest : capital.toNat ≤ 0x5A
  small : small.toNat = capital.toNat + 0x20

inductive StandsFor : Char → Char → Prop where
  | same (c : Char) : StandsFor c c
  | capital {c d : Char} (h : IsCapitalOf c d) : StandsFor c d
  | small {c d : Char} (h : IsCapitalOf d c) : StandsFor c d
  | underscore : StandsFor '_' '-'

/-- A hyphen, a small ASCII letter or a digit. -/
def IsNameChar (c : Char) : Prop :=
  c.toNat = 0x2D ∨ (0x61 ≤ c.toNat ∧ c.toNat ≤ 0x7A) ∨ (0x30 ≤ c.toNat ∧ c.toNat ≤ 0x39)

instance (c : Char) : Decidable (IsNameChar c) := inferInstanceAs (Decidable (_ ∨ _))

theorem isNameChar_of_mem_name : ∀ kind : Kind, ∀ c ∈ kind.name.toList, IsNameChar c := by
  intro kind c hc
  have hall : kind.name.toList.all (fun c => decide (IsNameChar c)) = true := by
    cases kind <;> decide +kernel
  exact of_decide_eq_true (List.all_eq_true.mp hall c hc)

theorem IsNameChar.not_isCapitalOf {c d : Char} (h : IsNameChar c) : ¬ IsCapitalOf c d := by
  rintro ⟨hleast, hgreatest, _⟩
  unfold IsNameChar at h
  omega

theorem toNat_toLower (c : Char) : c.toLower.toNat =
    if 0x41 ≤ c.toNat ∧ c.toNat ≤ 0x5A then c.toNat + 0x20 else c.toNat := by
  unfold Char.toLower
  split
  case isTrue h =>
    have hle : c.val.toNat ≤ 0x5A := h.2
    apply Eq.trans _ (if_pos h).symm
    change (c.val + 0x20).toNat = c.val.toNat + 0x20
    rw [UInt32.toNat_add]
    exact Nat.mod_eq_of_lt (Nat.lt_of_le_of_lt (Nat.add_le_add_right hle 0x20) (by decide))
  case isFalse h => exact (if_neg h).symm

/-- The small letter of a capital is read for it, and any other character for itself. -/
theorem toLower_eq_iff {c d : Char} :
    c.toLower = d ↔ IsCapitalOf c d ∨ c = d ∧ ¬ IsCapitalOf c c.toLower := by
  rw [← Char.toNat_inj, ← Char.toNat_inj, toNat_toLower]
  have hcapital : ∀ small : Char, IsCapitalOf c small ↔
      0x41 ≤ c.toNat ∧ c.toNat ≤ 0x5A ∧ small.toNat = c.toNat + 0x20 :=
    fun _ => ⟨fun h => ⟨h.least, h.greatest, h.small⟩, fun h => ⟨h.1, h.2.1, h.2.2⟩⟩
  rw [hcapital, hcapital, toNat_toLower]
  split <;> omega

/-- Folding undoes what may be written for a character of a name, and nothing else. -/
theorem fold_eq_iff {c d : Char} (hd : IsNameChar d) : fold c = d ↔ StandsFor c d := by
  by_cases hunderscore : c = '_'
  · subst hunderscore
    constructor
    · intro h
      cases h
      exact .underscore
    · intro h
      cases h with
      | same => exact absurd hd (by decide)
      | capital h => exact absurd h.greatest (by decide)
      | small h => exact absurd h hd.not_isCapitalOf
      | underscore => rfl
  · rw [fold, if_neg hunderscore, toLower_eq_iff]
    constructor
    · rintro (h | ⟨rfl, _⟩)
      · exact .capital h
      · exact .same c
    · intro h
      cases h with
      | same => exact .inr ⟨rfl, hd.not_isCapitalOf⟩
      | capital h => exact .inl h
      | small h => exact absurd h hd.not_isCapitalOf
      | underscore => exact absurd rfl hunderscore

/-- The character is of ASCII and no blank. -/
def IsPlain (c : Char) : Prop := c.toNat < 0x80 ∧ Text.isBlank c = false

theorem isPlain_of_toNat {c : Char} (hleast : 0x2D ≤ c.toNat) (hless : c.toNat < 0x80) :
    IsPlain c := by
  refine ⟨hless, ?_⟩
  simp only [Text.isBlank, Bool.or_eq_false_iff, Bool.and_eq_false_iff, decide_eq_false_iff_not,
    beq_eq_false_iff_ne]
  omega

/-- What is written for a character of a name is plain. -/
theorem StandsFor.isPlain {c d : Char} (h : StandsFor c d) (hd : IsNameChar d) : IsPlain c := by
  cases h with
  | same =>
    unfold IsNameChar at hd
    exact isPlain_of_toNat (by omega) (by omega)
  | capital h =>
    have hleast := h.least
    have hgreatest := h.greatest
    exact isPlain_of_toNat (by omega) (by omega)
  | small h => exact absurd h hd.not_isCapitalOf
  | underscore => exact isPlain_of_toNat (by decide) (by decide)

/-! ## Words -/

/-- The word has for each character of the name one that may be written for it. -/
def IsWordFor (word : List Char) (kind : Kind) : Prop :=
  List.Forall₂ StandsFor word kind.name.toList

theorem map_fold_eq_iff {word name : List Char} (hname : ∀ c ∈ name, IsNameChar c) :
    word.map fold = name ↔ List.Forall₂ StandsFor word name := by
  induction word generalizing name with
  | nil => simp [eq_comm]
  | cons c word ih =>
    cases name with
    | nil => simp
    | cons d name =>
      rw [List.map_cons, List.cons.injEq, List.forall₂_cons, fold_eq_iff (hname d (.head _)),
        ih fun other hother => hname other (.tail _ hother)]

theorem IsWordFor.isPlain {word : List Char} {kind : Kind} (h : IsWordFor word kind) :
    ∀ c ∈ word, IsPlain c := by
  have hname := isNameChar_of_mem_name kind
  unfold IsWordFor at h
  generalize kind.name.toList = name at h hname
  induction h with
  | nil => simp
  | @cons c d word name hfirst _ ih =>
    rw [List.forall_mem_cons] at hname ⊢
    exact ⟨hfirst.isPlain hname.1, ih hname.2⟩

/-! ## Texts -/

/-- The text is blanks, a word for the name of the kind, and blanks. -/
def IsSpelling (text : String) (kind : Kind) : Prop :=
  ∃ before word after, text.toList = before ++ word ++ after ∧
    (∀ c ∈ before, Text.isBlank c = true) ∧ (∀ c ∈ after, Text.isBlank c = true) ∧
    IsWordFor word kind

theorem isSpelling_iff {text : String} {kind : Kind} :
    IsSpelling text kind ↔ IsWordFor (Text.trim text.toList) kind := by
  constructor
  · rintro ⟨before, word, after, htext, hbefore, hafter, hword⟩
    have htrimmed : Text.IsTrimmed text.toList word := by
      refine ⟨⟨before, after, htext, hbefore, hafter⟩, ?_, ?_⟩
      · exact fun c hc => (hword.isPlain c (List.mem_of_head? hc)).2
      · exact fun c hc => (hword.isPlain c (List.mem_of_getLast? hc)).2
    rw [Text.trim_eq_iff.mpr htrimmed]
    exact hword
  · intro hword
    rcases (Text.isTrimmed_trim text.toList).between with ⟨before, after, htext, hbefore, hafter⟩
    exact ⟨before, _, after, htext, hbefore, hafter, hword⟩

/-- Reading leniently is looking up the folded word. -/
theorem parse?_eq_find? (text : String) :
    parse? text = Named.find? (String.ofList ((Text.trim text.toList).map fold)) := by
  unfold parse? Named.find?
  congr 1
  funext kind
  rw [Bool.eq_iff_iff, beq_iff_eq, beq_iff_eq, ← String.toList_inj, String.toList_ofList]
  exact eq_comm

theorem parse?_eq_some_iff {text : String} {kind : Kind} :
    parse? text = some kind ↔ IsSpelling text kind := by
  rw [parse?_eq_find?, Named.find?_eq_some_iff, ← String.toList_inj, String.toList_ofList,
    isSpelling_iff]
  exact map_fold_eq_iff (isNameChar_of_mem_name kind)

theorem ofText_eq_ok {text : String} {kind : Kind} :
    ofText text = .ok kind ↔ IsSpelling text kind := by
  rw [← parse?_eq_some_iff, ofText]
  cases parse? text <;> simp

/-- A name is a spelling of its own. -/
theorem ofText_name (kind : Kind) : ofText kind.name = .ok kind := by
  cases kind <;> rfl

theorem ofText_eq_error {text : String} {e : NameError} :
    ofText text = .error e ↔ (¬ ∃ kind, IsSpelling text kind) ∧ e = .unknownKind text := by
  simp only [← parse?_eq_some_iff, ofText]
  cases parse? text <;> simp [eq_comm]

/-- A kind is read from the spellings of its name, which are spellings of no other kind. Every other
text is refused as it stands. So what stands between the blanks of a text that is read has as many
characters as the name, all of ASCII, and no blank among them. -/
theorem kinds_are_read_from_their_spellings (text : String) :
    (∀ kind, ofText text = .ok kind ↔ IsSpelling text kind) ∧
    (∀ kind other, IsSpelling text kind → IsSpelling text other → kind = other) ∧
    (∀ e, ofText text = .error e ↔ (¬ ∃ kind, IsSpelling text kind) ∧ e = .unknownKind text) ∧
    ∀ kind word, ofText text = .ok kind → Text.IsTrimmed text.toList word →
      word.length = kind.name.length ∧ ∀ c ∈ word, c.toNat < 0x80 ∧ Text.isBlank c = false := by
  refine ⟨fun kind => ofText_eq_ok, ?_, fun e => ofText_eq_error, ?_⟩
  · intro kind other hkind hother
    have hread := ofText_eq_ok.mpr hkind
    rw [ofText_eq_ok.mpr hother] at hread
    exact (Except.ok.inj hread).symm
  · intro kind word hread htrimmed
    have hword := isSpelling_iff.mp (ofText_eq_ok.mp hread)
    rw [Text.trim_eq_iff.mpr htrimmed] at hword
    exact ⟨hword.length_eq.trans String.length_toList, hword.isPlain⟩

/-- Capitals, an underscore and a wide blank are forgiven, but neither a blank inside nor a letter
that only looks like one of ASCII. -/
theorem wide_blank_and_capitals_are_forgiven :
    ofText "\u2003Generic_AArch64\n" = .ok .genericAarch64 ∧
    ofText "ios 64" = .error (.unknownKind "ios 64") ∧
    ofText " ioſ" = .error (.unknownKind " ioſ") := by
  have hrefused : ∀ (text : String) (c : Char), c ∈ Text.trim text.toList →
      ¬ (c.toNat < 0x80 ∧ Text.isBlank c = false) → ofText text = .error (.unknownKind text) := by
    intro text c hc hno
    rcases kinds_are_read_from_their_spellings text with ⟨hread, _, hfails, hplain⟩
    refine (hfails _).mpr ⟨?_, rfl⟩
    rintro ⟨kind, hkind⟩
    exact hno ((hplain kind _ ((hread kind).mpr hkind) (Text.isTrimmed_trim _)).2 c hc)
  have hspelling : IsSpelling "\u2003Generic_AArch64\n" .genericAarch64 :=
    isSpelling_iff.mpr ((map_fold_eq_iff (isNameChar_of_mem_name _)).mp
      (by decide +kernel))
  exact ⟨((kinds_are_read_from_their_spellings _).1 _).mpr hspelling,
    hrefused _ ' ' (by decide +kernel) (by decide), hrefused _ 'ſ' (by decide +kernel) (by decide)⟩

end AbiFacts.Kind
