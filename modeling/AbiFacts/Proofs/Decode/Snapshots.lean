import AbiFacts.Decode.Snapshot
import AbiFacts.Proofs.Decode.Expectations

/-! # Tables of snapshots

What a table says as a snapshot, without regard to the order of its entries. A table is decoded to a
snapshot exactly when it says it and each field occurs once (`snapshotOfEntries_eq_ok`).
-/
namespace AbiFacts.Decode

variable {ν : Type} [Format ν]

def SnapshotFields.Part : Snapshot.Field → Type
  | .kind => Kind
  | .value _ => Bool
  | .tailPadding => TailPadding

/-- A snapshot is filled from its fields and passes over all other entries. -/
def SnapshotFields.record : Record (ν := ν) SnapshotFields Snapshot.Field SnapshotFields.step where
  Part := Part
  decode
    | .kind => (Format.choice : ν → Except Failure Kind)
    | .value _ => Format.boolean
    | .tailPadding => (Format.choice : ν → Except Failure TailPadding)
  met fields
    | .kind => fields.kind
    | .value property => fields.value property
    | .tailPadding => fields.tailPadding
  put fields
    | .kind, met => { fields with kind := some met }
    | .value property, met => { fields with
        value := fun other => if other = property then some met else fields.value other }
    | .tailPadding, met => { fields with tailPadding := some met }
  pass _ := Format.skip
  met_put_self := by
    intro fields field met
    cases field with
    | kind => rfl
    | value property => exact if_pos rfl
    | tailPadding => rfl
  met_put_of_ne := by
    intro fields field met other hother
    cases field with
    | kind => cases other <;> first | rfl | exact absurd rfl hother
    | value property =>
      cases other with
      | value other => exact if_neg fun h => hother (congrArg _ h)
      | kind | tailPadding => rfl
    | tailPadding => cases other <;> first | rfl | exact absurd rfl hother
  step_open := by
    intro fields field value hopen
    have hhas : fields.has field = false := by
      cases field <;> exact Option.isSome_eq_false_iff.mpr (Option.isNone_iff_eq_none.mpr hopen)
    rw [step, Documented.find?_name]
    simp only [hhas]
    cases field <;> rfl
  step_met := by
    intro fields field value hmet t
    have hhas : fields.has field = true := by
      cases field <;> exact Option.isSome_iff_ne_none.mpr hmet
    rw [step, Documented.find?_name]
    simp only [hhas]
    rintro ⟨⟩
  step_other := by
    intro fields key value hfind
    rw [step, Documented.find?_eq, hfind]
    rfl
  step_bare := by
    intro fields key t
    rw [step]
    split
    · split <;> rintro ⟨⟩
    · rintro ⟨⟩
  step_cut := by
    rintro fields t ⟨⟩

theorem SnapshotFields.finish_eq_ok {fields : SnapshotFields} {snapshot : Snapshot} :
    fields.finish = .ok snapshot ↔
      fields.kind = some snapshot.kind ∧
      (∀ property, fields.value property = some (snapshot.value property)) ∧
      fields.tailPadding = some snapshot.tailPadding := by
  rw [finish]
  constructor
  · intro h
    split at h
    case h_1 => cases h
    case h_2 hall =>
      have hvalue : ∀ property, (fields.value property).isSome := by
        intro property
        have hhas := List.find?_eq_none.mp hall (.value property) (Named.mem_all _)
        rw [Bool.not_eq_true, Bool.not_eq_false'] at hhas
        exact hhas
      split at h
      case h_1 kind rule hkind hrule =>
        obtain rfl := Except.ok.inj h
        refine ⟨hkind, fun property => ?_, hrule⟩
        obtain ⟨truth, htruth⟩ := Option.isSome_iff_exists.mp (hvalue property)
        simp [htruth]
      case h_2 => cases h
  · rintro ⟨hkind, hvalue, hrule⟩
    have hall : (Named.all : List Snapshot.Field).find? (fun field => !fields.has field) =
        none := by
      refine List.find?_eq_none.mpr fun field _ => ?_
      cases field <;> simp [has, hkind, hvalue, hrule]
    rw [hall, hkind, hrule]
    simp [hvalue, Snapshot.ofValues_eta]

variable [TreeFormat ν]

open TreeFormat

structure DenotesSnapshot (table : List (String × ν)) (snapshot : Snapshot) : Prop where
  kind : ∃ value, ("kind", value) ∈ table ∧ Format.choice value = .ok snapshot.kind
  value : ∀ property : Property, (property.key, ofBoolean (snapshot.value property)) ∈ table
  tailPadding : ∃ value, (tailPaddingKey, value) ∈ table ∧
    Format.choice value = .ok snapshot.tailPadding

/-- Each entry of the table fits the field that it is for. -/
theorem DenotesSnapshot.fits {table : List (String × ν)} {snapshot : Snapshot}
    (h : DenotesSnapshot table snapshot)
    (honce : ∀ field : Snapshot.Field, (keys table).count (Named.name field) ≤ 1)
    (hpasses : ∀ key value, (key, value) ∈ table →
      (Named.find? key : Option Snapshot.Field) = none → Format.skip value = .ok ()) :
    SnapshotFields.record.Fits {} table := by
  obtain ⟨kind, hkind, hchoice⟩ := h.kind
  obtain ⟨rule, hrule, hruleChoice⟩ := h.tailPadding
  have hboolean : ∀ property, Format.boolean (ofBoolean (snapshot.value property) : ν) =
      .ok (snapshot.value property) := fun _ => boolean_eq_ok.mpr rfl
  refine ⟨honce, fun field _ => ?_, fun field value hmem => ?_, hpasses⟩
  · cases field <;> rfl
  · cases field with
    | kind => exact ⟨snapshot.kind, value_unique_of_count (honce .kind) hmem hkind ▸ hchoice⟩
    | value property =>
      exact ⟨snapshot.value property,
        value_unique_of_count (honce (.value property)) hmem (h.value property) ▸
          hboolean property⟩
    | tailPadding =>
      exact ⟨snapshot.tailPadding,
        value_unique_of_count (honce .tailPadding) hmem hrule ▸ hruleChoice⟩

theorem snapshotOfEntries_eq_ok {table : List (String × ν)} {snapshot : Snapshot} :
    snapshotOfEntries (entriesOf table) = .ok snapshot ↔
      (∀ field : Snapshot.Field, (keys table).count (Named.name field) ≤ 1) ∧
      (∀ key value, (key, value) ∈ table → (Named.find? key : Option Snapshot.Field) = none →
        Format.skip value = .ok ()) ∧
      DenotesSnapshot table snapshot := by
  rw [snapshotOfEntries, bind_eq_ok]
  constructor
  · rintro ⟨fields, hfold, hfinish⟩
    have hfills := SnapshotFields.record.fills_of_foldlM hfold
    obtain ⟨hkind, hvalue, hrule⟩ := SnapshotFields.finish_eq_ok.mp hfinish
    refine ⟨hfills.once, fun _ _ => hfills.passes, ?_, fun property => ?_, ?_⟩
    · exact (hfills.met_eq_some .kind rfl).mp hkind
    · obtain ⟨value, hmem, hboolean⟩ :=
        (hfills.met_eq_some (.value property) rfl).mp (hvalue property)
      exact boolean_eq_ok.mp hboolean ▸ hmem
    · exact (hfills.met_eq_some .tailPadding rfl).mp hrule
  · rintro ⟨honce, hpasses, h⟩
    obtain ⟨fields, hfills⟩ := (h.fits honce hpasses).fills
    refine ⟨fields, hfills.foldlM, SnapshotFields.finish_eq_ok.mpr ⟨?_, fun property => ?_, ?_⟩⟩
    · exact (hfills.met_eq_some .kind rfl).mpr h.kind
    · refine (hfills.met_eq_some (.value property) rfl).mpr ⟨_, h.value property, ?_⟩
      exact boolean_eq_ok.mpr rfl
    · exact (hfills.met_eq_some .tailPadding rfl).mpr h.tailPadding

end AbiFacts.Decode
