import AbiFacts.Text.Hex
import AbiFacts.Text.Spelling

/-! # Spelling and escapes

What a quoting style spells, as a relation that follows the steps of the style and says nothing of
their number. Writing character by character is undone by reading (`Spells.flatMap`), and a number
in hexadecimal digits is read back (`hex?_hex4`).
-/
namespace AbiFacts.Text

variable {α : Type}

/-- A style spells units at the front of a text and leaves what follows the closing mark. Every step
but the last takes at least one character. -/
inductive Spells (step : List Char → Step α) : List Char → List α → List Char → Prop where
  | stop {text rest : List Char} {last : List α} (h : step text = .stop last rest) :
      Spells step text last rest
  | units {text more rest : List Char} {units later : List α} (h : step text = .units units more)
      (hlength : more.length < text.length) (hmore : Spells step more later rest) :
      Spells step text (units ++ later) rest

variable {step : List Char → Step α}

theorem Spells.spellWithin {text rest : List Char} {units : List α}
    (h : Spells step text units rest) (fuel : Nat) (hfuel : text.length < fuel) :
    spellWithin step fuel text = some (units, rest) := by
  induction h generalizing fuel with
  | stop h =>
    cases fuel with
    | zero => omega
    | succ fuel => simp [Text.spellWithin, h]
  | units h hlength _ ih =>
    cases fuel with
    | zero => omega
    | succ fuel => simp [Text.spellWithin, h, ih fuel (by omega)]

/-- The length of the text is fuel enough. -/
theorem Spells.spell {text rest : List Char} {units : List α} (h : Spells step text units rest) :
    spell step text = some (units, rest) :=
  h.spellWithin _ (Nat.lt_succ_self _)

/-- One more character in front, written on its own. -/
theorem Spells.cons {written text rest : List Char} {unit : α} {later : List α}
    (hne : written ≠ []) (hread : step (written ++ text) = .units [unit] text)
    (htext : Spells step text later rest) : Spells step (written ++ text) (unit :: later) rest := by
  refine .units hread ?_ htext
  have hpos := List.length_pos_iff.mpr hne
  rw [List.length_append]
  omega

/-- Characters that are written one by one are read one by one, whatever follows. -/
theorem Spells.flatMap {write : Char → List Char} {unit : Char → α} {chars text rest : List Char}
    {later : List α} (hne : ∀ c ∈ chars, write c ≠ [])
    (hread : ∀ c ∈ chars, ∀ tail, step (write c ++ tail) = .units [unit c] tail)
    (htext : Spells step text later rest) :
    Spells step (chars.flatMap write ++ text) (chars.map unit ++ later) rest := by
  induction chars with
  | nil => exact htext
  | cons c chars ih =>
    rw [List.flatMap_cons, List.append_assoc]
    refine .cons (hne c (by simp)) (hread c (by simp) _) (ih ?_ ?_)
    · exact fun d hd => hne d (by simp [hd])
    · exact fun d hd => hread d (by simp [hd])

/-! ## Numbers of characters -/

/-- Four digits denote their number, in whichever case letters are written. -/
theorem hex?_hex4 {digit : Nat → Char} (hdigit : ∀ n < 16, Decimal.digit? 16 (digit n) = some n)
    {n : Nat} (h : n < 65536) (rest : List Char) :
    hex? 4 (hex4 digit n ++ rest) = some (n, rest) := by
  have hvalue : ∀ m, Decimal.digit? 16 (digit (m % 16)) = some (m % 16) := fun m =>
    hdigit _ (Nat.mod_lt _ (by omega))
  have hdigits : ((hex4 digit n ++ rest).take 4).filterMap (Decimal.digit? 16) =
      [n / 4096 % 16, n / 256 % 16, n / 16 % 16, n % 16] := by
    simp [hex4, hvalue]
  have hnumber : Decimal.ofDigits 16 [n / 4096 % 16, n / 256 % 16, n / 16 % 16, n % 16] = n := by
    simp only [Decimal.ofDigits, List.foldl_cons, List.foldl_nil]
    omega
  simp only [hex?, hdigits, hnumber, List.length_cons, List.length_nil, if_true]
  rfl

theorem digit?_upperDigit : ∀ n < 16, Decimal.digit? 16 (upperDigit n) = some n := by decide

theorem digit?_lowerDigit : ∀ n < 16, Decimal.digit? 16 (lowerDigit n) = some n := by decide

@[simp] theorem scalar?_toNat (c : Char) : scalar? c.toNat = some c := by
  have hvalid : c.toNat.isValidChar := c.valid
  rw [scalar?, if_pos hvalid, Char.ofNat_toNat]

end AbiFacts.Text
