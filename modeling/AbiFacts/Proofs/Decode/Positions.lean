import AbiFacts.Proofs.Decode.Faults
import Mathlib.Data.List.Forall2

/-! # Records by position

The fields of a record may be filled from a list of values, in order. The table that gives these
values to the names of the fields does the same (`foldlM_zip`). Tables with values that decode alike
fill alike (`foldlM_congr`).
-/
namespace AbiFacts.Decode

variable {ν σ φ : Type} [Named φ] {step : σ → Entry ν → Except Failure σ}

namespace Record

variable (record : Record σ φ step)

def fillItems : σ → List φ → List ν → Except Failure σ
  | s, field :: fields, value :: values => do
    fillItems (record.put s field (← record.decode field value)) fields values
  | s, _, _ => .ok s

@[simp] theorem fillItems_nil (s : σ) (values : List ν) :
    record.fillItems s [] values = .ok s := rfl

@[simp] theorem fillItems_of_nil (s : σ) (fields : List φ) :
    record.fillItems s fields [] = .ok s := by
  cases fields <;> rfl

theorem fillItems_cons (s : σ) (field : φ) (fields : List φ) (value : ν) (values : List ν) :
    record.fillItems s (field :: fields) (value :: values) =
      record.decode field value >>= fun part =>
        record.fillItems (record.put s field part) fields values := rfl

theorem fillItems_append (first second : List φ) (s : σ) (values : List ν) :
    record.fillItems s (first ++ second) values =
      record.fillItems s first values >>= fun t =>
        record.fillItems t second (values.drop first.length) := by
  induction first generalizing s values with
  | nil => rfl
  | cons field first ih =>
    cases values with
    | nil =>
      rw [fillItems_of_nil, fillItems_of_nil, List.drop_nil]
      exact (record.fillItems_of_nil s second).symm
    | cons value values =>
      rw [List.cons_append, fillItems_cons, fillItems_cons]
      cases record.decode field value with
      | error failure => rfl
      | ok part => exact ih _ _

/-- The table of the values by the names of the fields does the same. -/
theorem foldlM_zip {fields : List φ} (hnodup : fields.Nodup) {s : σ}
    (hopen : ∀ field ∈ fields, record.met s field = none) (values : List ν) :
    (entriesOf ((fields.map Named.name).zip values)).foldlM step s =
      record.fillItems s fields values := by
  induction fields generalizing s values with
  | nil => rfl
  | cons field fields ih =>
    rcases List.nodup_cons.mp hnodup with ⟨hnot, hfields⟩
    cases values with
    | nil => rfl
    | cons value values =>
      rw [List.map_cons, List.zip_cons_cons, entriesOf_cons, List.foldlM_cons, fillItems_cons,
        record.step_open s field value (hopen field (.head _))]
      cases record.decode field value with
      | error failure => rfl
      | ok part =>
        apply ih hfields
        intro other hother
        have hne : other ≠ field := by
          rintro rfl
          exact hnot hother
        rw [record.met_put_of_ne s field part other hne]
        exact hopen other (.tail _ hother)

/-! ## What has been met -/

variable {record} {s t : σ} {fields : List φ} {values : List ν}

theorem met_of_fillItems_of_notMem (h : record.fillItems s fields values = .ok t) (other : φ)
    (hother : other ∉ fields) : record.met t other = record.met s other := by
  induction fields generalizing s values with
  | nil => rw [Except.ok.inj h]
  | cons field fields ih =>
    cases values with
    | nil => rw [Except.ok.inj h]
    | cons value values =>
      rw [List.mem_cons, not_or] at hother
      rw [fillItems_cons, bind_eq_ok] at h
      rcases h with ⟨part, _, hmore⟩
      rw [ih hmore hother.2, record.met_put_of_ne s field part other hother.1]

/-- Where the values suffice, every field is met. -/
theorem isSome_met_of_fillItems (h : record.fillItems s fields values = .ok t)
    (hlength : fields.length ≤ values.length) {field : φ} (hfield : field ∈ fields) :
    (record.met t field).isSome := by
  induction fields generalizing s values with
  | nil => cases hfield
  | cons first fields ih =>
    cases values with
    | nil => simp at hlength
    | cons value values =>
      rw [fillItems_cons, bind_eq_ok] at h
      rcases h with ⟨part, _, hmore⟩
      by_cases hmem : field ∈ fields
      · exact ih hmore (Nat.le_of_succ_le_succ hlength) hmem
      · rcases (List.mem_cons.mp hfield).resolve_right hmem with rfl
        rw [met_of_fillItems_of_notMem hmore field hmem, record.met_put_self]
        rfl

variable (record)

def ItemsDecode (fields : List φ) (values : List ν) : Prop :=
  ∀ field value, (field, value) ∈ fields.zip values → ∃ part, record.decode field value = .ok part

theorem exists_fillItems {fields : List φ} {values : List ν} (h : record.ItemsDecode fields values)
    (s : σ) : ∃ t, record.fillItems s fields values = .ok t := by
  induction fields generalizing s values with
  | nil => exact ⟨s, rfl⟩
  | cons field fields ih =>
    cases values with
    | nil => exact ⟨s, rfl⟩
    | cons value values =>
      rcases h field value (.head _) with ⟨part, hpart⟩
      rw [fillItems_cons, hpart]
      exact ih (fun other given hmem => h other given (.tail _ hmem)) _

/-! ## Values that decode alike -/

structure Alike (key : String) (a b : ν) : Prop where
  decode : ∀ field, key = Named.name field → record.decode field a = record.decode field b
  pass : (Named.find? key : Option φ) = none → record.pass key a = record.pass key b

variable {record}

theorem step_congr (hrepeated : record.NamesRepeated) {key : String} {a b : ν}
    (h : record.Alike key a b) (s : σ) : step s (.entry key a) = step s (.entry key b) := by
  cases hfind : (Named.find? key : Option φ) with
  | none => rw [record.step_other s key a hfind, record.step_other s key b hfind, h.pass hfind]
  | some field =>
    rcases Named.find?_eq_some_iff.mp hfind
    by_cases hopen : record.met s field = none
    · rw [record.step_open s field a hopen, record.step_open s field b hopen, h.decode field rfl]
    · rw [hrepeated s field a hopen, hrepeated s field b hopen]

theorem foldlM_congr (hrepeated : record.NamesRepeated) {first second : List (String × ν)}
    (h : List.Forall₂ (fun a b => a.1 = b.1 ∧ record.Alike a.1 a.2 b.2) first second) (s : σ) :
    (entriesOf first).foldlM step s = (entriesOf second).foldlM step s := by
  induction h generalizing s with
  | nil => rfl
  | @cons a b first second hhead _ ih =>
    rcases a with ⟨key, value⟩
    rcases b with ⟨_, other⟩
    rcases hhead with ⟨rfl, halike⟩
    rw [entriesOf_cons, entriesOf_cons, List.foldlM_cons, List.foldlM_cons,
      step_congr hrepeated halike s, funext ih]

end Record
end AbiFacts.Decode
