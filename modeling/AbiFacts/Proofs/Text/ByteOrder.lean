import AbiFacts.Proofs.Files.Joining
import Mathlib.Data.List.Lex

/-! # The order of bytes

Texts are ordered by their characters. Their bytes are ordered in the same way: where two texts
first differ, the lesser character has the lesser byte (`toBytes_lt_toBytes_iff`).
-/
namespace AbiFacts.Text

/-- The number of a character from its digits to the base 64, with a leading byte that is greater
for the longer forms. -/
inductive Encodes (n : Nat) : List UInt8 → Prop where
  | one (h : n < 0x80) : Encodes n [.ofNat n]
  | two {a b : Nat} (hn : n = a * 64 + b) (hle : 0x80 ≤ n) (ha : a < 32) (hb : b < 64) :
      Encodes n [.ofNat (a + 192), .ofNat (b + 128)]
  | three {a b c : Nat} (hn : n = (a * 64 + b) * 64 + c) (hle : 0x800 ≤ n) (ha : a < 16)
      (hb : b < 64) (hc : c < 64) :
      Encodes n [.ofNat (a + 224), .ofNat (b + 128), .ofNat (c + 128)]
  | four {a b c d : Nat} (hn : n = ((a * 64 + b) * 64 + c) * 64 + d) (hle : 0x10000 ≤ n)
      (ha : a < 8) (hb : b < 64) (hc : c < 64) (hd : d < 64) :
      Encodes n [.ofNat (a + 240), .ofNat (b + 128), .ofNat (c + 128), .ofNat (d + 128)]

theorem encodes_utf8EncodeChar (c : Char) : Encodes c.val.toNat (String.utf8EncodeChar c) := by
  have hbound : c.val.toNat < 0x110000 := by
    rcases c.valid with h | h
    · exact Nat.lt_trans h (by decide)
    · exact h.2
  simp only [String.utf8EncodeChar]
  split
  case isTrue hone => exact .one (by omega)
  case isFalse hone =>
    split
    case isTrue htwo => exact .two (by omega) (by omega) (by omega) (by omega)
    case isFalse htwo =>
      split
      case isTrue hthree =>
        exact .three (by omega) (by omega) (by omega) (by omega) (by omega)
      case isFalse hthree =>
        exact .four (by omega) (by omega) (by omega) (by omega) (by omega) (by omega)

/-- The first byte in which two characters differ decides, whatever follows. -/
theorem Encodes.append_lt_append {m n : Nat} {first second : List UInt8} (hm : Encodes m first)
    (hn : Encodes n second) (h : m < n) (after beyond : List UInt8) :
    first ++ after < second ++ beyond := by
  -- Of two forms the longer one has the greater leading byte; within a form the digits decide.
  cases hm <;> cases hn <;>
    simp only [List.cons_append, List.nil_append, List.cons_lt_cons_iff, UInt8.lt_iff_toNat_lt,
      ← UInt8.toNat_inj, UInt8.toNat_ofNat'] <;>
    omega

theorem flatMap_lt_flatMap {first second : List Char} (h : first < second) :
    first.flatMap String.utf8EncodeChar < second.flatMap String.utf8EncodeChar := by
  induction h with
  | @nil c rest =>
    rw [List.flatMap_nil, List.flatMap_cons]
    rcases List.exists_cons_of_ne_nil (String.utf8EncodeChar_ne_nil (c := c)) with ⟨_, _, hc⟩
    rw [hc]
    exact List.nil_lt_cons _ _
  | @cons c first second _ ih =>
    rw [List.flatMap_cons, List.flatMap_cons]
    exact List.append_left_lt ih
  | @rel c first d second hlt =>
    rw [List.flatMap_cons, List.flatMap_cons]
    exact (encodes_utf8EncodeChar c).append_lt_append (encodes_utf8EncodeChar d) hlt _ _

theorem toBytes_lt_toBytes {first second : String} (h : first < second) :
    toBytes first < toBytes second := by
  rw [toBytes_eq_flatMap, toBytes_eq_flatMap]
  exact flatMap_lt_flatMap h

/-- Texts and their bytes are in the same order. -/
theorem toBytes_lt_toBytes_iff {first second : String} :
    toBytes first < toBytes second ↔ first < second := by
  constructor
  · intro h
    by_contra hnot
    rcases Decidable.em (second < first) with hgt | hge
    · exact List.lt_asymm h (toBytes_lt_toBytes hgt)
    · have heq : first = second := String.le_antisymm hge hnot
      exact List.lt_irrefl _ (heq ▸ h)
  · exact toBytes_lt_toBytes

end AbiFacts.Text
