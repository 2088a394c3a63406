import AbiFacts.Decimal.Digits

/-! # Decimal digits

The digits of a number denote it again (`ofDigits_digits`) and begin with a zero for zero alone.
They are read off a text up to the first character that is no digit.
-/
namespace AbiFacts.Decimal

/-! ## Single digits -/

theorem digit?_of_isDigit {c : Char} (h : c.isDigit = true) :
    digit? 10 c = some (c.toNat - '0'.toNat) := by
  have hvalue : c.toNat - '0'.toNat < 10 := by
    have hbounds := Char.isDigit_iff_toNat.mp h
    simp only [Char.reduceToNat] at hbounds ⊢
    omega
  simp only [digit?, h, if_true, if_pos hvalue]

/-- Letters count from ten. -/
theorem digit?_of_not_isDigit {c : Char} (h : c.isDigit = false) : digit? 10 c = none := by
  have hletter : ∀ n : Nat, ¬ n + 10 < 10 := by omega
  simp only [digit?, h, Bool.false_eq_true, if_false]
  split
  · exact if_neg (hletter _)
  · split
    · exact if_neg (hletter _)
    · rfl

theorem isDigit_of_digit? {c : Char} (h : (digit? 10 c).isSome = true) : c.isDigit = true := by
  cases hc : c.isDigit with
  | true => rfl
  | false =>
    rw [digit?_of_not_isDigit hc] at h
    cases h

theorem digit?_digitChar {n : Nat} (h : n < 10) : digit? 10 n.digitChar = some n := by
  have hdigit : n.digitChar.isDigit = true := by
    rw [Nat.isDigit_digitChar]
    simpa using h
  rw [digit?_of_isDigit hdigit]
  exact congrArg some (Nat.toNat_digitChar_sub_48_of_lt_ten h)

/-! ## The digits of a number -/

theorem isDigit_of_mem_toDigits {n : Nat} {c : Char} (h : c ∈ Nat.toDigits 10 n) :
    c.isDigit = true :=
  Nat.isDigit_of_mem_toDigits (by decide) (by decide) h

theorem toDigits_begins (n : Nat) :
    ∃ c tail, Nat.toDigits 10 n = c :: tail ∧ c.isDigit = true := by
  obtain ⟨c, tail, hdigits⟩ := List.exists_cons_of_ne_nil (Nat.toDigits_ne_nil (n := n) (b := 10))
  exact ⟨c, tail, hdigits, isDigit_of_mem_toDigits (n := n) (by simp [hdigits])⟩

theorem digits_of_lt {n : Nat} (h : n < 10) : digits n = [n] := by
  rw [digits, Nat.toDigits_of_lt_base h]
  simp [digit?_digitChar h]

theorem digits_of_le {n : Nat} (h : 10 ≤ n) : digits n = digits (n / 10) ++ [n % 10] := by
  have hlast : digit? 10 (n % 10).digitChar = some (n % 10) := digit?_digitChar (by omega)
  rw [digits, Nat.toDigits_of_base_le (by decide) h, List.filterMap_append, ← digits]
  simp [hlast]

theorem digits_ne_nil (n : Nat) : digits n ≠ [] := by
  by_cases h : n < 10
  · simp [digits_of_lt h]
  · simp [digits_of_le (Nat.le_of_not_lt h)]

theorem ofDigits_append_singleton (values : List Nat) (value : Nat) :
    ofDigits 10 (values ++ [value]) = ofDigits 10 values * 10 + value := by
  simp [ofDigits]

@[simp] theorem ofDigits_digits (n : Nat) : ofDigits 10 (digits n) = n := by
  induction n using Nat.strongRecOn with
  | ind n ih =>
    by_cases h : n < 10
    · simp [digits_of_lt h, ofDigits]
    · have hle := Nat.le_of_not_lt h
      rw [digits_of_le hle, ofDigits_append_singleton, ih (n / 10) (by omega)]
      omega

theorem head?_digits_ne {n : Nat} (h : 0 < n) : (digits n).head? ≠ some 0 := by
  induction n using Nat.strongRecOn with
  | ind n ih =>
    by_cases hlt : n < 10
    · simp [digits_of_lt hlt]
      omega
    · have hle := Nat.le_of_not_lt hlt
      have hmore := ih (n / 10) (by omega) (by omega)
      rw [digits_of_le hle]
      cases hdigits : digits (n / 10) with
      | nil => exact absurd hdigits (digits_ne_nil _)
      | cons value values => simpa [hdigits] using hmore

/-- The digits of a number begin with a zero only where they are that zero. -/
theorem digits_ne_leading_zero (n next : Nat) (more : List Nat) : digits n ≠ 0 :: next :: more := by
  intro h
  by_cases hlt : n < 10
  · simp [digits_of_lt hlt] at h
  · refine head?_digits_ne (n := n) (by omega) ?_
    rw [h, List.head?_cons]

def BeginsInteger (c : Char) : Prop := c.isDigit = true ∨ c = '-'

theorem BeginsInteger.ne {c d : Char} (h : BeginsInteger c) (hdigit : d.isDigit = false)
    (hminus : d ≠ '-') : c ≠ d := by
  rintro rfl
  rcases h with h | h
  · rw [hdigit] at h
    cases h
  · exact hminus h

theorem signed_begins (negative : Prop) [Decidable negative] (n : Nat) :
    ∃ c tail, (if negative then ['-'] else []) ++ Nat.toDigits 10 n = c :: tail ∧
      BeginsInteger c := by
  split
  · exact ⟨'-', _, rfl, .inr rfl⟩
  · obtain ⟨c, tail, hc, hdigit⟩ := toDigits_begins n
    exact ⟨c, tail, hc, .inl hdigit⟩

/-! ## Digits at the front of a text -/

def EndsDigits (rest : List Char) : Prop := ∀ c, rest.head? = some c → c.isDigit = false

theorem takeDigits_of_endsDigits {rest : List Char} (h : EndsDigits rest) :
    takeDigits rest = ([], rest) := by
  cases rest with
  | nil => rfl
  | cons c rest => rw [takeDigits, digit?_of_not_isDigit (h c rfl)]

theorem takeDigits_append {run rest : List Char} (hrun : ∀ c ∈ run, c.isDigit = true)
    (hrest : EndsDigits rest) :
    takeDigits (run ++ rest) = (run.filterMap (digit? 10), rest) := by
  induction run with
  | nil => exact takeDigits_of_endsDigits hrest
  | cons c run ih =>
    have hc := digit?_of_isDigit (hrun c (by simp))
    have hmore := ih fun d hd => hrun d (by simp [hd])
    rw [List.cons_append, takeDigits, hc, List.filterMap_cons_some hc]
    simp only [hmore]

theorem takeDigits_toDigits (n : Nat) {rest : List Char} (hrest : EndsDigits rest) :
    takeDigits (Nat.toDigits 10 n ++ rest) = (digits n, rest) :=
  takeDigits_append (fun _ => isDigit_of_mem_toDigits) hrest

/-! ## What may follow a value -/

def delimiters : List Char := [' ', '\n', '\t', '\r', ',', ']', '\x7d']

def Delimits (rest : List Char) : Prop := ∀ c, rest.head? = some c → c ∈ delimiters

theorem Delimits.nil : Delimits [] := by
  rintro c ⟨⟩

theorem Delimits.cons {c : Char} (h : c ∈ delimiters) (rest : List Char) : Delimits (c :: rest) := by
  rintro d ⟨⟩
  exact h

theorem Delimits.head?_ne {rest : List Char} (h : Delimits rest) {c : Char} (hc : c ∉ delimiters) :
    rest.head? ≠ some c :=
  fun hhead => hc (h c hhead)

theorem Delimits.endsDigits {rest : List Char} (h : Delimits rest) : EndsDigits rest := by
  intro c hhead
  have hnone : ∀ d ∈ delimiters, d.isDigit = false := by simp [delimiters]
  exact hnone c (h c hhead)

end AbiFacts.Decimal
