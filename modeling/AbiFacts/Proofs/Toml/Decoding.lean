import AbiFacts.Proofs.Decode.Expectations
import AbiFacts.Toml.Decode

/-! # TOML as a tree format

Texts, booleans and tables of TOML have one form each. A date or time passes for a table, but its
one entry has a key that is expected nowhere.
-/
namespace AbiFacts.Toml

open Decode

theorem Value.text_eq_ok {value : Value} {text : String} :
    value.text = .ok text ↔ value = .string text := by
  cases value <;> simp [Value.text, misfit]

theorem Value.bool_eq_ok {value : Value} {truth : Bool} :
    value.bool = .ok truth ↔ value = .boolean truth := by
  cases value <;> simp [bool, misfit]

theorem Value.entries_eq_ok {wanted : Wanted} {value : Value} {table : Table}
    (h : value.entries wanted = .ok (entriesOf table)) :
    value = .table table ∨
      ∃ key ∈ keys table, key ≠ tailPaddingKey ∧ (Named.find? key : Option Property) = none := by
  cases value with
  | table inner => exact .inl (congrArg _ (entriesOf_injective (Except.ok.inj h)))
  | datetime text =>
    have htable : entriesOf [(datetimeKey, Value.string text)] = entriesOf table := Except.ok.inj h
    obtain rfl := entriesOf_injective htable
    exact .inr ⟨datetimeKey, .head _, by decide, by decide⟩
  | _ => cases h

instance : TreeFormat Value where
  ofText := .string
  ofBoolean := .boolean
  ofTable := .table
  text_eq_ok := Value.text_eq_ok
  boolean_eq_ok := Value.bool_eq_ok
  choice_ofText _ := rfl
  entries_ofTable _ _ := rfl
  ofTable_injective := Value.table.inj
  keep_ofBoolean _ _ := rfl
  isNull_ofText _ := rfl
  isNull_ofTable _ := rfl
  entries_eq_ok := Value.entries_eq_ok

/-- A text that follows the grammar is decoded from its table. -/
theorem decode_of_read? {α : Type} {read : List (Entry Value) → Except Failure α} {text : String}
    {table : Table} (h : read? text = some table) : decode read text = read (entriesOf table) := by
  rw [decode, h]
  rfl

end AbiFacts.Toml
