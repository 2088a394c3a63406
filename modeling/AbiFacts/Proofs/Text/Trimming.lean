import AbiFacts.Text.Blank
import Mathlib.Data.List.DropRight

/-! # Trimmed texts

Trimming takes the blanks off both ends of a text and nothing else: what is left is the one part
between blanks that neither begins nor ends with a blank (`trim_eq_iff`).
-/
namespace AbiFacts.Text

/-- The word stands in the text between blanks, and has none at its ends. -/
structure IsTrimmed (text word : List Char) : Prop where
  between : ∃ before after, text = before ++ word ++ after ∧
    (∀ c ∈ before, isBlank c = true) ∧ ∀ c ∈ after, isBlank c = true
  head : ∀ c ∈ word.head?, isBlank c = false
  last : ∀ c ∈ word.getLast?, isBlank c = false

/-- Dropping ends where something else begins. -/
theorem dropWhile_append_eq {p : Char → Bool} {before rest : List Char}
    (hbefore : ∀ c ∈ before, p c = true) (hrest : ∀ c ∈ rest.head?, p c = false) :
    (before ++ rest).dropWhile p = rest := by
  rw [List.dropWhile_append_of_pos hbefore]
  cases rest with
  | nil => rfl
  | cons c rest =>
    apply List.dropWhile_cons_of_neg
    simp [hrest c rfl]

theorem head?_dropWhile {p : Char → Bool} (text : List Char) :
    ∀ c ∈ (text.dropWhile p).head?, p c = false := by
  intro c hc
  have hnot := List.head?_dropWhile_not p text
  rw [hc] at hnot
  exact hnot

theorem isTrimmed_trim (text : List Char) : IsTrimmed text (trim text) := by
  -- The blanks in front go first, so the text that loses the others begins with none.
  have hhead : ∀ c ∈ (text.dropWhile isBlank).head?, isBlank c = false := head?_dropWhile text
  have htrim : trim text = (text.dropWhile isBlank).rdropWhile isBlank := rfl
  refine ⟨⟨text.takeWhile isBlank, (text.dropWhile isBlank).rtakeWhile isBlank, ?_, ?_, ?_⟩, ?_, ?_⟩
  · rw [htrim, List.append_assoc, List.rdropWhile_append_rtakeWhile,
      List.takeWhile_append_dropWhile]
  · exact fun c hc => List.mem_takeWhile_imp hc
  · exact fun c hc => List.mem_rtakeWhile_imp hc
  · intro c hc
    apply hhead c
    rcases List.rdropWhile_prefix isBlank (text.dropWhile isBlank) with ⟨after, hafter⟩
    rw [← hafter, ← htrim]
    exact List.mem_head?_append_of_mem_head? hc
  · intro c hc
    rw [trim, List.getLast?_reverse] at hc
    exact head?_dropWhile _ c hc

theorem trim_eq_of_isTrimmed {text word : List Char} (h : IsTrimmed text word) :
    trim text = word := by
  rcases h.between with ⟨before, after, rfl, hbefore, hafter⟩
  cases word with
  | nil =>
    have hall : ∀ c ∈ before ++ [] ++ after, isBlank c = true := by
      simpa [or_imp, forall_and] using ⟨hbefore, hafter⟩
    rw [trim, List.dropWhile_eq_nil_iff.mpr hall]
    rfl
  | cons c rest =>
    have hfront : (before ++ (c :: rest ++ after)).dropWhile isBlank = c :: rest ++ after :=
      dropWhile_append_eq hbefore fun d hd => h.head d hd
    have hback :
        (after.reverse ++ (c :: rest).reverse).dropWhile isBlank = (c :: rest).reverse := by
      apply dropWhile_append_eq
      · simpa using hafter
      · rw [List.head?_reverse]
        exact h.last
    rw [trim, List.append_assoc, hfront, List.reverse_append, hback, List.reverse_reverse]

theorem trim_eq_iff {text word : List Char} : trim text = word ↔ IsTrimmed text word := by
  constructor
  · rintro rfl
    exact isTrimmed_trim text
  · exact trim_eq_of_isTrimmed

end AbiFacts.Text
