import AbiFacts.Decode.Format
import AbiFacts.Named
import AbiFacts.Proofs.Tables

/-! # Filling records

A record is decoded by a fold over the entries of a table. A step either fills a field that is still
open or passes over an entry that is no field. So a table is accepted exactly when each field occurs
at most once, with a value that decodes, and all else may be passed over (`exists_foldlM`); what a
field then holds is what stands beside its key (`Fills.part`).
-/
namespace AbiFacts.Decode

variable {ν σ φ : Type} [Named φ]

def entriesOf (table : List (String × ν)) : List (Entry ν) :=
  table.map fun entry => .entry entry.1 entry.2

@[simp] theorem entriesOf_nil : entriesOf ([] : List (String × ν)) = [] := rfl

@[simp] theorem entriesOf_cons (entry : String × ν) (table : List (String × ν)) :
    entriesOf (entry :: table) = .entry entry.1 entry.2 :: entriesOf table := rfl

theorem entriesOf_injective {a b : List (String × ν)} (h : entriesOf a = entriesOf b) : a = b := by
  refine (List.map_inj_right ?_).mp h
  rintro ⟨_, _⟩ ⟨_, _⟩ ⟨⟩
  rfl

theorem bind_eq_ok {ε α β : Type} {x : Except ε α} {f : α → Except ε β} {b : β} :
    x >>= f = .ok b ↔ ∃ a, x = .ok a ∧ f a = .ok b := by
  cases x <;> simp [bind, Except.bind]

theorem map_eq_ok {ε α β : Type} {x : Except ε α} {f : α → β} {b : β} :
    f <$> x = .ok b ↔ ∃ a, x = .ok a ∧ f a = b := by
  cases x <;> simp [Functor.map, Except.map]

theorem pure_eq_ok {ε α : Type} {a b : α} : (pure a : Except ε α) = .ok b ↔ a = b := by
  simp [pure, Except.pure]

theorem name_eq_name {a b : φ} : Named.name a = Named.name b ↔ a = b :=
  ⟨Named.name_injective a b, congrArg _⟩

theorem named_eq_ok {α : Type} [Documented α] {text : String} {a : α} :
    named text = .ok a ↔ text = Named.name a := by
  rw [named, Documented.find?_eq, ← Named.find?_eq_some_iff]
  cases (Named.find? text : Option α) <;> simp

/-- What one step does to the fields that have been met. -/
structure Record (σ φ : Type) [Named φ] (step : σ → Entry ν → Except Failure σ) where
  Part : φ → Type
  decode : (field : φ) → ν → Except Failure (Part field)
  met : σ → (field : φ) → Option (Part field)
  put : σ → (field : φ) → Part field → σ
  /-- What becomes of an entry that is no field. -/
  pass : String → ν → Except Failure Unit
  met_put_self : ∀ s field part, met (put s field part) field = some part
  met_put_of_ne : ∀ s field part other, other ≠ field → met (put s field part) other = met s other
  step_open : ∀ s field value, met s field = none →
    step s (.entry (Named.name field) value) = put s field <$> decode field value
  step_met : ∀ s field value, met s field ≠ none →
    ∀ t, step s (.entry (Named.name field) value) ≠ .ok t
  step_other : ∀ s key value, (Named.find? key : Option φ) = none →
    step s (.entry key value) = (fun _ => s) <$> pass key value
  step_bare : ∀ s key t, step s (.bare key) ≠ .ok t
  step_cut : ∀ s t, step s .cut ≠ .ok t

namespace Record

variable {step : σ → Entry ν → Except Failure σ} (record : Record σ φ step)

/-- How a table is taken up, entry by entry. -/
inductive Fills : σ → List (String × ν) → σ → Prop where
  | nil (s : σ) : Fills s [] s
  | field {s t : σ} {field : φ} {value : ν} {part : record.Part field} {table : List (String × ν)}
      (hopen : record.met s field = none) (hpart : record.decode field value = .ok part)
      (hmore : Fills (record.put s field part) table t) :
      Fills s ((Named.name field, value) :: table) t
  | other {s t : σ} {key : String} {value : ν} {table : List (String × ν)}
      (hfind : (Named.find? key : Option φ) = none) (hpass : record.pass key value = .ok ())
      (hmore : Fills s table t) : Fills s ((key, value) :: table) t

theorem fills_of_foldlM {table : List (String × ν)} {s t : σ}
    (h : (entriesOf table).foldlM step s = .ok t) : record.Fills s table t := by
  induction table generalizing s with
  | nil =>
    obtain rfl := pure_eq_ok.mp h
    exact .nil s
  | cons entry table ih =>
    obtain ⟨key, value⟩ := entry
    rw [entriesOf_cons, List.foldlM_cons, bind_eq_ok] at h
    obtain ⟨next, hstep, hfold⟩ := h
    cases hfind : (Named.find? key : Option φ) with
    | none =>
      rw [record.step_other s key value hfind, map_eq_ok] at hstep
      obtain ⟨_, hpass, rfl⟩ := hstep
      exact .other hfind hpass (ih hfold)
    | some field =>
      obtain rfl := Named.find?_eq_some_iff.mp hfind
      by_cases hopen : record.met s field = none
      · rw [record.step_open s field value hopen, map_eq_ok] at hstep
        obtain ⟨part, hpart, rfl⟩ := hstep
        exact .field hopen hpart (ih hfold)
      · exact absurd hstep (record.step_met s field value hopen next)

variable {record}

theorem Fills.foldlM {table : List (String × ν)} {s t : σ} (h : record.Fills s table t) :
    (entriesOf table).foldlM step s = .ok t := by
  induction h with
  | nil s => rfl
  | field hopen hpart _ ih =>
    rw [entriesOf_cons, List.foldlM_cons, bind_eq_ok]
    exact ⟨_, by rw [record.step_open _ _ _ hopen, hpart]; rfl, ih⟩
  | other hfind hpass _ ih =>
    rw [entriesOf_cons, List.foldlM_cons, bind_eq_ok]
    exact ⟨_, by rw [record.step_other _ _ _ hfind, hpass]; rfl, ih⟩

theorem Fills.isOpen {table : List (String × ν)} {s t : σ} (h : record.Fills s table t)
    {field : φ} (hmem : Named.name field ∈ keys table) : record.met s field = none := by
  induction h with
  | nil s => cases hmem
  | @field s t other value part table hopen _ _ ih =>
    by_cases hother : field = other
    · exact hother ▸ hopen
    · rw [keys_cons, List.mem_cons, name_eq_name] at hmem
      rw [← record.met_put_of_ne s other part field hother]
      exact ih (hmem.resolve_left hother)
  | other hfind _ _ ih =>
    rw [keys_cons, List.mem_cons] at hmem
    exact ih (hmem.resolve_left (Named.find?_eq_none_iff.mp hfind field).symm)

/-- A field that was put does not occur again. -/
theorem Fills.not_mem {table : List (String × ν)} {s t : σ} {field : φ} {part : record.Part field}
    (h : record.Fills (record.put s field part) table t) : Named.name field ∉ keys table := by
  intro hmem
  have hopen := h.isOpen hmem
  rw [record.met_put_self] at hopen
  cases hopen

theorem Fills.once {table : List (String × ν)} {s t : σ} (h : record.Fills s table t) (field : φ) :
    (keys table).count (Named.name field) ≤ 1 := by
  induction h with
  | nil s => simp
  | @field s t other value part table _ _ hmore ih =>
    by_cases hother : other = field
    · subst hother
      simp [List.count_eq_zero.mpr hmore.not_mem]
    · simpa [List.count_cons, name_eq_name, hother] using ih
  | other hfind _ _ ih =>
    have hne := (Named.find?_eq_none_iff.mp hfind) field
    simpa [List.count_cons, hne] using ih

theorem Fills.same {table : List (String × ν)} {s t : σ} (h : record.Fills s table t) {field : φ}
    (hmem : Named.name field ∉ keys table) : record.met t field = record.met s field := by
  induction h with
  | nil s => rfl
  | @field s t other value part table _ _ _ ih =>
    rw [keys_cons, List.mem_cons, name_eq_name, not_or] at hmem
    rw [ih hmem.2, record.met_put_of_ne s other part field hmem.1]
  | other _ _ _ ih =>
    rw [keys_cons, List.mem_cons, not_or] at hmem
    exact ih hmem.2

/-- A field holds what its entry decodes to. -/
theorem Fills.part {table : List (String × ν)} {s t : σ} (h : record.Fills s table t) {field : φ}
    {value : ν} (hmem : (Named.name field, value) ∈ table) :
    ∃ part, record.decode field value = .ok part ∧ record.met t field = some part := by
  induction h with
  | nil s => cases hmem
  | @field s t other given part table _ hpart hmore ih =>
    rw [List.mem_cons, Prod.mk.injEq, name_eq_name] at hmem
    obtain ⟨rfl, rfl⟩ | hmem := hmem
    · exact ⟨part, hpart, by rw [hmore.same hmore.not_mem, record.met_put_self]⟩
    · exact ih hmem
  | other hfind _ _ ih =>
    rw [List.mem_cons, Prod.mk.injEq] at hmem
    exact ih (hmem.resolve_left fun h => Named.find?_eq_none_iff.mp hfind field h.1.symm)

theorem Fills.passes {table : List (String × ν)} {s t : σ} (h : record.Fills s table t)
    {key : String} {value : ν} (hmem : (key, value) ∈ table)
    (hfind : (Named.find? key : Option φ) = none) : record.pass key value = .ok () := by
  induction h with
  | nil s => cases hmem
  | field _ _ _ ih =>
    rw [List.mem_cons, Prod.mk.injEq] at hmem
    obtain ⟨rfl, _⟩ | hmem := hmem
    · simp at hfind
    · exact ih hmem
  | other _ hpass _ ih =>
    rw [List.mem_cons, Prod.mk.injEq] at hmem
    obtain ⟨rfl, rfl⟩ | hmem := hmem
    · exact hpass
    · exact ih hmem

/-- Where nothing has been met before, a field holds what the table has for it. -/
theorem Fills.met_eq_some {table : List (String × ν)} {s t : σ} (h : record.Fills s table t)
    (field : φ) (hopen : record.met s field = none) {part : record.Part field} :
    record.met t field = some part ↔
      ∃ value, (Named.name field, value) ∈ table ∧ record.decode field value = .ok part := by
  constructor
  · intro hmet
    by_cases hmem : Named.name field ∈ keys table
    · obtain ⟨value, hvalue⟩ := mem_keys.mp hmem
      obtain ⟨other, hdecode, hother⟩ := h.part hvalue
      rw [hmet, Option.some.injEq] at hother
      exact ⟨value, hvalue, hother ▸ hdecode⟩
    · rw [h.same hmem, hopen] at hmet
      cases hmet
  · rintro ⟨value, hvalue, hdecode⟩
    obtain ⟨other, hother, hmet⟩ := h.part hvalue
    rw [hdecode, Except.ok.injEq] at hother
    rw [hmet, hother]

theorem Fills.met_eq_none {table : List (String × ν)} {s t : σ} (h : record.Fills s table t)
    (field : φ) (hmet : record.met t field = none) : Named.name field ∉ keys table := by
  intro hmem
  obtain ⟨value, hvalue⟩ := mem_keys.mp hmem
  obtain ⟨part, _, hpart⟩ := h.part hvalue
  rw [hmet] at hpart
  cases hpart

variable (record)

/-- A table that a record with these fields met accepts. -/
structure Fits (s : σ) (table : List (String × ν)) : Prop where
  once : ∀ field : φ, (keys table).count (Named.name field) ≤ 1
  isOpen : ∀ field, Named.name field ∈ keys table → record.met s field = none
  decodes : ∀ field value, (Named.name field, value) ∈ table →
    ∃ part, record.decode field value = .ok part
  passes : ∀ key value, (key, value) ∈ table → (Named.find? key : Option φ) = none →
    record.pass key value = .ok ()

theorem Fits.fills {s : σ} {table : List (String × ν)} (h : record.Fits s table) :
    ∃ t, record.Fills s table t := by
  induction table generalizing s with
  | nil => exact ⟨s, .nil s⟩
  | cons entry table ih =>
    obtain ⟨key, value⟩ := entry
    have honce : ∀ field : φ, (keys table).count (Named.name field) ≤ 1 := by
      intro field
      have h := h.once field
      rw [keys_cons, List.count_cons] at h
      omega
    have hdecodes := fun field given hmem => h.decodes field given (.tail _ hmem)
    have hpasses := fun other given hmem => h.passes other given (.tail _ hmem)
    cases hfind : (Named.find? key : Option φ) with
    | none =>
      have hopen := fun field hmem => h.isOpen field (.tail _ hmem)
      obtain ⟨t, ht⟩ := ih ⟨honce, hopen, hdecodes, hpasses⟩
      exact ⟨t, .other hfind (h.passes key value (.head _) hfind) ht⟩
    | some field =>
      obtain rfl := Named.find?_eq_some_iff.mp hfind
      obtain ⟨part, hpart⟩ := h.decodes field value (.head _)
      have hopen : ∀ other, Named.name other ∈ keys table →
          record.met (record.put s field part) other = none := by
        intro other hmem
        have hother : other ≠ field := by
          rintro rfl
          have hmore := List.count_pos_iff.mpr hmem
          have h := h.once other
          rw [keys_cons, List.count_cons_self] at h
          omega
        rw [record.met_put_of_ne s field part other hother]
        exact h.isOpen other (.tail _ hmem)
      obtain ⟨t, ht⟩ := ih ⟨honce, hopen, hdecodes, hpasses⟩
      exact ⟨t, .field (h.isOpen field (.head _)) hpart ht⟩

/-- Exactly the tables that fit are accepted. -/
theorem exists_foldlM {s : σ} {table : List (String × ν)} :
    (∃ t, (entriesOf table).foldlM step s = .ok t) ↔ record.Fits s table := by
  constructor
  · rintro ⟨t, h⟩
    have hfills := record.fills_of_foldlM h
    refine ⟨hfills.once, fun _ => hfills.isOpen, fun field value hmem => ?_,
      fun _ _ => hfills.passes⟩
    obtain ⟨part, hpart, _⟩ := hfills.part hmem
    exact ⟨part, hpart⟩
  · intro h
    obtain ⟨t, ht⟩ := h.fills
    exact ⟨t, ht.foldlM⟩

include record in
/-- Nothing is accepted that breaks off. -/
theorem entriesOf_of_foldlM {entries : List (Entry ν)} {s t : σ}
    (h : entries.foldlM step s = .ok t) : ∃ table, entries = entriesOf table := by
  induction entries generalizing s with
  | nil => exact ⟨[], rfl⟩
  | cons entry entries ih =>
    rw [List.foldlM_cons, bind_eq_ok] at h
    obtain ⟨next, hstep, hfold⟩ := h
    obtain ⟨table, rfl⟩ := ih hfold
    cases entry with
    | entry key value => exact ⟨(key, value) :: table, rfl⟩
    | bare key => exact absurd hstep (record.step_bare s key next)
    | cut => exact absurd hstep (record.step_cut s next)

end Record
end AbiFacts.Decode
