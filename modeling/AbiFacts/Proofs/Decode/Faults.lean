import AbiFacts.Proofs.Decode.Records

/-! # The first fault of a table

A table is taken up entry by entry, so a table that is refused is refused for the first entry that
does not fit, whatever is wrong with the entries after it (`Record.foldlM_eq_error`). An entry does
not fit when its field has occurred before, when its value is not decoded, or when it is no field
and cannot be passed over; the key is judged before the value.
-/
namespace AbiFacts.Decode

/-! ## Failures -/

section
variable {ε α β σ : Type}

theorem bind_eq_error {x : Except ε α} {f : α → Except ε β} {e : ε} :
    x >>= f = .error e ↔ x = .error e ∨ ∃ a, x = .ok a ∧ f a = .error e := by
  cases x <;> simp [bind, Except.bind]

theorem map_eq_error {x : Except ε α} {f : α → β} {e : ε} :
    f <$> x = .error e ↔ x = .error e := by
  cases x <;> simp [Functor.map, Except.map]

/-- A loop fails at the first item whose step fails. -/
theorem foldlM_eq_error {step : σ → α → Except ε σ} {s : σ} {items : List α} {e : ε} :
    items.foldlM step s = .error e ↔ ∃ front item back t, items = front ++ item :: back ∧
      front.foldlM step s = .ok t ∧ step t item = .error e := by
  constructor
  · intro h
    induction items generalizing s with
    | nil => cases h
    | cons first items ih =>
      rw [List.foldlM_cons, bind_eq_error] at h
      rcases h with h | ⟨next, hnext, h⟩
      · exact ⟨[], first, items, s, rfl, rfl, h⟩
      · rcases ih h with ⟨front, item, back, t, rfl, hfront, hitem⟩
        refine ⟨first :: front, item, back, t, rfl, ?_, hitem⟩
        rw [List.foldlM_cons, hnext]
        exact hfront
  · rintro ⟨front, item, back, t, rfl, hfront, hitem⟩
    simp [List.foldlM_append, hfront, hitem, bind, Except.bind]

end

/-! ## Records -/

variable {ν σ φ : Type} [Named φ] {step : σ → Entry ν → Except Failure σ}

theorem entriesOf_eq_append {table : List (String × ν)} {front back : List (Entry ν)}
    {entry : Entry ν} :
    entriesOf table = front ++ entry :: back ↔ ∃ before key value rest,
      table = before ++ (key, value) :: rest ∧ front = entriesOf before ∧
        entry = .entry key value ∧ back = entriesOf rest := by
  simp only [entriesOf, List.map_eq_append_iff, List.map_eq_cons_iff]
  constructor
  · rintro ⟨before, _, rfl, rfl, ⟨key, value⟩, rest, rfl, rfl, rfl⟩
    exact ⟨before, key, value, rest, rfl, rfl, rfl, rfl⟩
  · rintro ⟨before, key, value, rest, rfl, rfl, rfl, rfl⟩
    exact ⟨before, _, rfl, rfl, _, rest, rfl, rfl, rfl⟩

namespace Record

variable (record : Record σ φ step)

/-- A field that has been met is refused by its name when it occurs again. -/
def NamesRepeated : Prop :=
  ∀ s field value, record.met s field ≠ none →
    step s (.entry (Named.name field) value) = .error (.data (.duplicateField (Named.name field)))

inductive Fault (front : List (String × ν)) : String → ν → Failure → Prop where
  | repeated {field : φ} {value : ν} (hfront : Named.name field ∈ keys front) :
      Fault front (Named.name field) value (.data (.duplicateField (Named.name field)))
  | value {field : φ} {value : ν} {failure : Failure} (hfront : Named.name field ∉ keys front)
      (hdecode : record.decode field value = .error failure) :
      Fault front (Named.name field) value failure
  | other {key : String} {value : ν} {failure : Failure}
      (hfind : (Named.find? key : Option φ) = none)
      (hpass : record.pass key value = .error failure) : Fault front key value failure

inductive FirstFault (s : σ) (table : List (String × ν)) (failure : Failure) : Prop where
  | intro {front back : List (String × ν)} {key : String} {value : ν}
      (htable : table = front ++ (key, value) :: back) (hfits : record.Fits s front)
      (hfault : record.Fault front key value failure)

variable {record}

/-- A field is met exactly if it has occurred. -/
theorem Fills.met_iff {table : List (String × ν)} {s t : σ} (h : record.Fills s table t)
    (field : φ) (hopen : record.met s field = none) :
    record.met t field = none ↔ Named.name field ∉ keys table := by
  constructor
  · exact h.met_eq_none field
  · intro hno
    rw [h.same hno, hopen]

theorem Fills.step_eq_error {table : List (String × ν)} {s t : σ} (h : record.Fills s table t)
    (hrepeated : record.NamesRepeated) (hopen : ∀ field, record.met s field = none) {key : String}
    {value : ν} {failure : Failure} :
    step t (.entry key value) = .error failure ↔ record.Fault table key value failure := by
  constructor
  · intro hstep
    cases hfind : (Named.find? key : Option φ) with
    | none =>
      rw [record.step_other t key value hfind, map_eq_error] at hstep
      exact .other hfind hstep
    | some field =>
      rcases Named.find?_eq_some_iff.mp hfind
      by_cases hmem : Named.name field ∈ keys table
      · have hmet : record.met t field ≠ none := fun hnone =>
          (h.met_iff field (hopen field)).mp hnone hmem
        rw [hrepeated t field value hmet] at hstep
        cases hstep
        exact .repeated hmem
      · rw [record.step_open t field value ((h.met_iff field (hopen field)).mpr hmem),
          map_eq_error] at hstep
        exact .value hmem hstep
  · intro hfault
    cases hfault with
    | @repeated field value hmem =>
      exact hrepeated t field value fun hnone => (h.met_iff field (hopen field)).mp hnone hmem
    | @value field value _ hmem hdecode =>
      rw [record.step_open t field value ((h.met_iff field (hopen field)).mpr hmem), map_eq_error]
      exact hdecode
    | other hfind hpass =>
      rw [record.step_other t key value hfind, map_eq_error]
      exact hpass

variable (record)

/-- A table is refused for its first fault. -/
theorem foldlM_eq_error (hrepeated : record.NamesRepeated) {s : σ}
    (hopen : ∀ field, record.met s field = none) {table : List (String × ν)} {failure : Failure} :
    (entriesOf table).foldlM step s = .error failure ↔ record.FirstFault s table failure := by
  rw [Decode.foldlM_eq_error]
  constructor
  · rintro ⟨_, _, _, t, htable, hfront, hstep⟩
    rcases entriesOf_eq_append.mp htable with ⟨front, key, value, back, rfl, rfl, rfl, rfl⟩
    have hfills := record.fills_of_foldlM hfront
    exact .intro rfl (record.exists_foldlM.mp ⟨t, hfront⟩)
      ((hfills.step_eq_error hrepeated hopen).mp hstep)
  · rintro ⟨rfl, hfits, hfault⟩
    rcases hfits.fills with ⟨t, hfills⟩
    refine ⟨_, _, _, t, entriesOf_eq_append.mpr ⟨_, _, _, _, rfl, rfl, rfl, rfl⟩, hfills.foldlM, ?_⟩
    exact (hfills.step_eq_error hrepeated hopen).mpr hfault

end Record
end AbiFacts.Decode
