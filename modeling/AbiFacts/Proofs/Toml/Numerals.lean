import AbiFacts.Proofs.Decimal.Digits
import AbiFacts.Toml.Numeral
import AbiFacts.Toml.Time

/-! # TOML integers read back

An integer of 64 bits is written as a run of digits, with a sign where it is negative. Such a text is
a date or a time in no way, so it is read as the integer (`number?_toString`).
-/
namespace AbiFacts.Toml

open Decimal (Delimits EndsDigits digits)

/-- A text that begins with a run of digits, of which nothing but the end of a value follows. -/
structure IsNumeral (run rest : List Char) : Prop where
  digits : ∀ c ∈ run, c.isDigit = true
  delimits : Delimits rest

namespace IsNumeral

variable {run rest : List Char}

theorem of_nat (n : Nat) (h : Delimits rest) : IsNumeral (Nat.toDigits 10 n) rest :=
  ⟨fun _ => Decimal.isDigit_of_mem_toDigits, h⟩

theorem tail {c : Char} (h : IsNumeral (c :: run) rest) : IsNumeral run rest :=
  ⟨fun d hd => h.digits d (by simp [hd]), h.delimits⟩

/-- What comes next is a digit or ends the value. -/
theorem head?_ne (h : IsNumeral run rest) {c : Char} (hdigit : c.isDigit = false)
    (hc : c ∉ Decimal.delimiters) : (run ++ rest).head? ≠ some c := by
  cases run with
  | nil => exact h.delimits.head?_ne hc
  | cons d run =>
    rintro ⟨⟩
    have hd := h.digits c (by simp)
    rw [hdigit] at hd
    cases hd

theorem after?_eq_none (h : IsNumeral run rest) {c : Char} (hdigit : c.isDigit = false)
    (hc : c ∉ Decimal.delimiters) : after? c (run ++ rest) = none := by
  have hhead := h.head?_ne hdigit hc
  cases htext : run ++ rest with
  | nil => rfl
  | cons d text =>
    rw [htext, List.head?_cons, ne_eq, Option.some.injEq] at hhead
    exact if_neg hhead

/-- A part of fixed width is taken off the run. -/
theorem fixed? (h : IsNumeral run rest) {count least greatest value : Nat} {text : List Char}
    (hread : Toml.fixed? count least greatest (run ++ rest) = some (value, text)) :
    ∃ more, text = more ++ rest ∧ IsNumeral more rest := by
  simp only [Toml.fixed?, Option.ite_none_right_eq_some, Option.some.injEq, Prod.mk.injEq] at hread
  obtain ⟨⟨hcount, -, -⟩, -, rfl⟩ := hread
  have hall : ∀ c ∈ (run ++ rest).take count, c.isDigit = true := by
    have hle := List.length_filterMap_le (Decimal.digit? 10) ((run ++ rest).take count)
    have htake := List.length_take_le count (run ++ rest)
    have hvalues := List.filterMap_length_eq_length.mp (by omega :
      (((run ++ rest).take count).filterMap (Decimal.digit? 10)).length =
        ((run ++ rest).take count).length)
    exact fun c hc => Decimal.isDigit_of_digit? (hvalues c hc)
  have hsplit : run ++ rest = (run ++ rest).take count ++ (run ++ rest).drop count :=
    (List.take_append_drop count _).symm
  rcases List.append_eq_append_iff.mp hsplit with ⟨more, htake, hrest⟩ | ⟨more, hrun, hdrop⟩
  · -- The part ends no later than the run, since no digit follows it.
    cases more with
    | nil => exact ⟨[], hrest.symm, by simp, h.delimits⟩
    | cons c more =>
      have hdigit := hall c (by rw [htake]; simp)
      rw [h.delimits.endsDigits c (by rw [hrest]; rfl)] at hdigit
      cases hdigit
  · refine ⟨more, hdrop, fun c hc => h.digits c ?_, h.delimits⟩
    rw [hrun]
    exact List.mem_append_right _ hc

/-- A run of digits is neither a date nor a time: no dash and no colon comes in it. -/
theorem datetime?_eq_none (h : IsNumeral run rest) : datetime? (run ++ rest) = none := by
  have hdate : date? (run ++ rest) = none := by
    rw [date?]
    cases hyear : Toml.fixed? 4 0 9999 (run ++ rest) with
    | none => rfl
    | some read =>
      obtain ⟨more, hmore, hnumeral⟩ := h.fixed? hyear
      simp [hmore, hnumeral.after?_eq_none (c := '-') (by decide) (by decide)]
  have htime : timeOfDay? (run ++ rest) = none := by
    rw [timeOfDay?]
    cases hhour : Toml.fixed? 2 0 23 (run ++ rest) with
    | none => rfl
    | some read =>
      obtain ⟨more, hmore, hnumeral⟩ := h.fixed? hhour
      simp [hmore, hnumeral.after?_eq_none (c := ':') (by decide) (by decide)]
  rw [datetime?, hdate]
  exact htime

end IsNumeral

/-- Nor is one with a minus sign. -/
theorem datetime?_minus (text : List Char) : datetime? ('-' :: text) = none := by
  have hfixed : ∀ count least greatest, fixed? (count + 1) least greatest ('-' :: text) = none := by
    intro count least greatest
    have hle := List.length_filterMap_le (Decimal.digit? 10) (text.take count)
    have htake := List.length_take_le count text
    have hshort : ((text.take count).filterMap (Decimal.digit? 10)).length ≠ count + 1 := by omega
    have hsign : Decimal.digit? 10 '-' = none := by decide
    simp [fixed?, hsign, hshort]
  rw [datetime?, date?, timeOfDay?, hfixed, hfixed]
  rfl

/-! ## Runs of digits -/

theorem moreDigits_append {run rest : List Char} (h : IsNumeral run rest) :
    moreDigits 10 (run ++ rest) = (run.filterMap (Decimal.digit? 10), rest) := by
  induction run with
  | nil =>
    cases rest with
    | nil => rfl
    | cons c rest =>
      have hc := Decimal.digit?_of_not_isDigit (h.delimits.endsDigits c rfl)
      have hunderscore : c ≠ '_' := fun he => h.delimits.head?_ne (c := '_') (by decide) (by simp [he])
      rw [List.nil_append, moreDigits]
      · simp [hc]
      · rintro _ _ ⟨⟩
        exact absurd rfl hunderscore
  | cons c run ih =>
    have hdigit := h.digits c (by simp)
    have hc := Decimal.digit?_of_isDigit hdigit
    have hmore := ih h.tail
    rw [List.cons_append, moreDigits]
    · simp [hc, hmore]
    · rintro _ _ ⟨⟩
      cases hdigit

theorem digitRun?_toDigits (n : Nat) {rest : List Char} (hrest : Delimits rest) :
    digitRun? 10 (Nat.toDigits 10 n ++ rest) = some (digits n, rest) := by
  have h := IsNumeral.of_nat n hrest
  obtain ⟨c, tail, hc, hdigit⟩ := Decimal.toDigits_begins n
  have hfirst := Decimal.digit?_of_isDigit hdigit
  have hmore := moreDigits_append (hc ▸ h).tail
  rw [digits, hc, List.cons_append, digitRun?, hfirst]
  simp [hmore, hfirst]

theorem fraction?_of_delimits {rest : List Char} (h : Delimits rest) :
    fraction? rest = some (none, rest) := by
  unfold fraction?
  split
  · exact absurd rfl (h.head?_ne (by decide))
  · rfl

theorem exponent?_of_delimits {rest : List Char} (h : Delimits rest) :
    exponent? rest = some (none, rest) := by
  unfold exponent?
  split
  · exact absurd rfl (h.head?_ne (by decide))
  · exact absurd rfl (h.head?_ne (by decide))
  · rfl

/-! ## Integers -/

def FitsInt64 (n : Int) : Prop := Int64.minValue.toInt ≤ n ∧ n ≤ Int64.maxValue.toInt

theorem toList_toString (n : Int) :
    (toString n).toList = (if n < 0 then ['-'] else []) ++ Nat.toDigits 10 n.natAbs := by
  rw [Int.toString_eq_repr, Int.repr_eq_if]
  by_cases hn : 0 ≤ n
  · have habs : n.toNat = n.natAbs := by omega
    rw [if_pos hn, if_neg (by omega), habs, Nat.toList_repr, List.nil_append]
  · have habs : (-n).toNat = n.natAbs := by omega
    rw [if_neg hn, if_pos (by omega), habs, String.toList_append, Nat.toList_repr]
    rfl

theorem sign_toString (n : Int) (rest : List Char) :
    sign ((toString n).toList ++ rest) = (decide (n < 0), Nat.toDigits 10 n.natAbs ++ rest) := by
  rw [toList_toString]
  by_cases hn : n < 0
  · simp [hn, sign]
  · obtain ⟨c, tail, hc, hdigit⟩ := Decimal.toDigits_begins n.natAbs
    rw [if_neg hn, hc, List.nil_append, List.cons_append, sign, decide_eq_false hn]
    all_goals
      rintro _ ⟨⟩
      cases hdigit

theorem decimal?_toString {n : Int} (hn : FitsInt64 n) {rest : List Char} (hrest : Delimits rest) :
    decimal? ((toString n).toList ++ rest) = some (.integer n, rest) := by
  have hrun := digitRun?_toDigits n.natAbs hrest
  have hfraction := fraction?_of_delimits hrest
  have hexponent := exponent?_of_delimits hrest
  have hvalue : (if n < 0 then -(n.natAbs : Int) else n.natAbs) = n := by omega
  rw [decimal?, sign_toString]
  simp only [hrun, Option.bind_eq_bind, Option.bind_some]
  split
  · exact absurd ‹_› (Decimal.digits_ne_leading_zero n.natAbs _ _)
  · simp only [hfraction, hexponent, Option.bind_some, Decimal.ofDigits_digits, decide_eq_true_eq,
      hvalue]
    exact if_pos hn

theorem toString_begins (n : Int) :
    ∃ c tail, (toString n).toList = c :: tail ∧ Decimal.BeginsInteger c :=
  toList_toString n ▸ Decimal.signed_begins (n < 0) n.natAbs

/-- No written integer begins with the mark of another base. -/
theorem toString_ne_marked (n : Int) {rest : List Char} (hrest : Delimits rest) {c : Char}
    (hdigit : c.isDigit = false) (hc : c ∉ Decimal.delimiters) (tail : List Char) :
    (toString n).toList ++ rest ≠ '0' :: c :: tail := by
  rw [toList_toString]
  intro htext
  by_cases hn : n < 0
  · rw [if_pos hn] at htext
    cases htext
  · obtain ⟨d, more, hd, _⟩ := Decimal.toDigits_begins n.natAbs
    have hnumeral := (hd ▸ IsNumeral.of_nat n.natAbs hrest).tail
    rw [if_neg hn, hd, List.nil_append, List.cons_append, List.cons.injEq] at htext
    refine hnumeral.head?_ne hdigit hc ?_
    rw [htext.2, List.head?_cons]

theorem number?_toString {n : Int} (hn : FitsInt64 n) {rest : List Char} (hrest : Delimits rest) :
    number? ((toString n).toList ++ rest) = some (.integer n, rest) := by
  have hdecimal := decimal?_toString hn hrest
  have hsign := sign_toString n rest
  obtain ⟨d, more, hd, hdigit⟩ := Decimal.toDigits_begins n.natAbs
  rw [hd, List.cons_append] at hsign
  unfold number?
  split
  · exact absurd ‹_› (toString_ne_marked n hrest (by decide) (by decide) _)
  · exact absurd ‹_› (toString_ne_marked n hrest (by decide) (by decide) _)
  · exact absurd ‹_› (toString_ne_marked n hrest (by decide) (by decide) _)
  · rw [hsign]
    split
    · next h =>
      obtain rfl := (List.cons.inj (Prod.mk.inj h).2).1
      cases hdigit
    · next h =>
      obtain rfl := (List.cons.inj (Prod.mk.inj h).2).1
      cases hdigit
    · exact hdecimal

theorem datetime?_toString (n : Int) {rest : List Char} (hrest : Delimits rest) :
    datetime? ((toString n).toList ++ rest) = none := by
  rw [toList_toString]
  by_cases hn : n < 0
  · rw [if_pos hn]
    exact datetime?_minus _
  · rw [if_neg hn]
    exact (IsNumeral.of_nat n.natAbs hrest).datetime?_eq_none

end AbiFacts.Toml
