import AbiFacts.Json.Decode
import AbiFacts.Proofs.Decode.Expectations

/-! # JSON as a tree format

Texts, booleans and tables of JSON have one form each: an object is a table when it is closed and
each of its keys is a text.
-/
namespace AbiFacts.Json

open Decode

namespace Scan

def ofTable (table : List (String × Scan)) : Scan :=
  .object (table.map fun entry => (some entry.1, entry.2)) .closed

theorem misfit_ne_ok {α : Type} {wanted : Wanted} {scan : Scan} {a : α} :
    scan.misfit wanted ≠ (.ok a : Except Failure α) := by
  rw [misfit]
  cases scan.found <;> rintro ⟨⟩

theorem text_eq_ok {scan : Scan} {t : String} : scan.text = .ok t ↔ scan = .string (some t) := by
  unfold text
  split
  · simp
  case h_2 hno =>
    constructor
    · exact fun h => absurd h misfit_ne_ok
    · exact fun h => absurd h (hno t)

theorem bool_eq_ok {scan : Scan} {truth : Bool} :
    scan.bool = .ok truth ↔ scan = .boolean truth := by
  unfold bool
  split
  · simp
  case h_2 hno =>
    constructor
    · exact fun h => absurd h misfit_ne_ok
    · exact fun h => absurd h (hno truth)

theorem steps_ofTable (table : List (String × Scan)) :
    steps .closed (table.map fun entry => (some entry.1, entry.2)) = entriesOf table := by
  induction table with
  | nil => rfl
  | cons entry table ih => rw [List.map_cons, steps, ih, entriesOf_cons]

/-- Steps without a break are those of a table. -/
theorem eq_ofTable_of_steps {ending : Ending} {entries : List (Option String × Scan)}
    {table : List (String × Scan)} (h : steps ending entries = entriesOf table) :
    Scan.object entries ending = ofTable table := by
  induction entries generalizing table with
  | nil =>
    cases ending with
    | closed =>
      cases table with
      | nil => rfl
      | cons entry table => cases h
    | bare key => cases key <;> cases table <;> cases h
    | cut => cases table <;> cases h
  | cons entry entries ih =>
    obtain ⟨key, value⟩ := entry
    cases key with
    | none =>
      cases table <;> cases h
    | some key =>
      cases table with
      | nil => cases h
      | cons first table =>
        rw [steps, entriesOf_cons, List.cons.injEq, Entry.entry.injEq] at h
        obtain ⟨⟨rfl, rfl⟩, hrest⟩ := h
        have hobject := ih hrest
        rw [ofTable, object.injEq] at hobject ⊢
        rw [hobject.1, List.map_cons]
        exact ⟨rfl, hobject.2⟩

theorem entries_eq_ok {wanted : Wanted} {scan : Scan} {table : List (String × Scan)}
    (h : scan.entries wanted = .ok (entriesOf table)) : scan = ofTable table := by
  unfold entries at h
  split at h
  · exact eq_ofTable_of_steps (Except.ok.inj h)
  · exact absurd h misfit_ne_ok

instance : TreeFormat Scan where
  ofText text := .string (some text)
  ofBoolean := .boolean
  ofTable := ofTable
  text_eq_ok := text_eq_ok
  boolean_eq_ok := bool_eq_ok
  choice_ofText _ := rfl
  entries_ofTable _ table := congrArg Except.ok (steps_ofTable table)
  ofTable_injective := by
    intro a b h
    rw [ofTable, ofTable, object.injEq] at h
    refine (List.map_inj_right ?_).mp h.1
    rintro ⟨_, _⟩ ⟨_, _⟩ ⟨⟩
    rfl
  keep_ofBoolean _ _ := rfl
  isNull_ofText _ := rfl
  isNull_ofTable _ := rfl
  entries_eq_ok h := .inl (entries_eq_ok h)

end Scan

/-- A text with nothing after its value is decoded from its scan. -/
theorem decode_of_scan {α : Type} {read : Scan → Except Failure α} {text : String} {value : Scan}
    (h : scan text = (value, false)) : decode read text = read value := by
  rw [decode, h]
  dsimp only
  cases read value <;> rfl

end AbiFacts.Json
