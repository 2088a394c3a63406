import AbiFacts.Json.Text
import AbiFacts.Proofs.Text.Spelling

/-! # JSON strings read back

Every character is written so that one step of reading takes all of it, whatever follows. Hence a
written text is read back, and what follows its closing quote is left (`string?_quote`).
-/
namespace AbiFacts.Json

open Text (Spells)

theorem escape_ne_nil (c : Char) : escape c ≠ [] := by
  unfold escape
  split
  case h_8 => split <;> simp
  all_goals simp

theorem unicodeEscape_hex4 {c : Char} (h : c.toNat < 0x20) (tail : List Char) :
    unicodeEscape (Text.hex4 Text.lowerDigit c.toNat ++ tail) = .units [some c] tail := by
  have hsurrogate : isHighSurrogate c.toNat = false := by
    simp only [isHighSurrogate, Bool.and_eq_false_iff, decide_eq_false_iff_not]
    omega
  have hsmall : c.toNat < 65536 := by omega
  rw [unicodeEscape, Text.hex?_hex4 Text.digit?_lowerDigit hsmall]
  simp [hsurrogate]

theorem stringStep_escape (c : Char) (tail : List Char) :
    stringStep (escape c ++ tail) = .units [some c] tail := by
  unfold escape
  split
  case h_8 _ hquote hbackslash _ _ _ _ _ =>
    by_cases hcontrol : c.toNat < 0x20
    · rw [if_pos hcontrol]
      exact unicodeEscape_hex4 hcontrol tail
    · rw [if_neg hcontrol, List.singleton_append, stringStep]
      · rw [if_neg hcontrol]
      · exact hquote
      all_goals first | exact fun _ h _ => hbackslash h | exact hbackslash
  all_goals rfl

theorem textOf?_map_some (chars : List Char) :
    textOf? (chars.map some) = some (String.ofList chars) := by
  have hunits : (chars.map some).mapM id = some chars := by
    induction chars with
    | nil => rfl
    | cons c chars ih => simp [ih]
  rw [textOf?, hunits, Option.map_some]

theorem string?_quote (text : String) (rest : List Char) :
    string? (text.toList.flatMap escape ++ '"' :: rest) = some (some text, rest) := by
  have hspells : Spells stringStep (text.toList.flatMap escape ++ '"' :: rest)
      (text.toList.map some ++ []) rest :=
    .flatMap (fun c _ => escape_ne_nil c) (fun c _ => stringStep_escape c) (.stop rfl)
  rw [string?, hspells.spell]
  simp [textOf?_map_some]

end AbiFacts.Json
