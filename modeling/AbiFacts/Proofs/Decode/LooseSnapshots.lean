import AbiFacts.Proofs.Decode.Faults
import AbiFacts.Proofs.Decode.Snapshots
import AbiFacts.Proofs.Json.RoundTrip
import AbiFacts.Proofs.Json.WholeScans
import AbiFacts.Proofs.Toml.Decoding

/-! # Loose decoding of snapshots

A snapshot is decoded from its ten fields, each of which must occur once. All other entries of a
document that follows its grammar are passed over, whatever is nested in them. So they have no
effect on the snapshot, nor on what is reported where there is none
(`snapshots_are_decoded_loosely`).
-/
namespace AbiFacts

namespace Decode

/-! ## Entries that are passed over -/

section
variable {ν σ φ : Type} [Named φ] {step : σ → Entry ν → Except Failure σ}

def fieldEntries (φ : Type) [Named φ] (table : List (String × ν)) : List (String × ν) :=
  table.filter fun entry => (Named.find? entry.1 : Option φ).isSome

/-- Entries that can be passed over may be left out. -/
theorem Record.foldlM_fieldEntries (record : Record σ φ step) {table : List (String × ν)}
    (hpasses : ∀ key value, (key, value) ∈ table → (Named.find? key : Option φ) = none →
      record.pass key value = .ok ()) (s : σ) :
    (entriesOf (fieldEntries φ table)).foldlM step s = (entriesOf table).foldlM step s := by
  induction table generalizing s with
  | nil => rfl
  | cons entry table ih =>
    rcases entry with ⟨key, value⟩
    have hmore := ih fun other given hmem => hpasses other given (.tail _ hmem)
    cases hfind : (Named.find? key : Option φ) with
    | none =>
      have hpass := hpasses key value (.head _) hfind
      rw [fieldEntries, List.filter_cons_of_neg (by simp [hfind]), entriesOf_cons, List.foldlM_cons,
        record.step_other s key value hfind, hpass]
      exact hmore s
    | some field =>
      rw [fieldEntries, List.filter_cons_of_pos (by simp [hfind]), entriesOf_cons, entriesOf_cons,
        List.foldlM_cons, List.foldlM_cons]
      exact congrArg _ (funext hmore)

end

variable {ν : Type} [Format ν]

def SkipsOthers (table : List (String × ν)) : Prop :=
  ∀ key value, (key, value) ∈ table → (Named.find? key : Option Snapshot.Field) = none →
    Format.skip value = .ok ()

/-- The outcome, be it a snapshot or a failure, depends on the fields alone. -/
theorem snapshotOfEntries_fieldEntries {table : List (String × ν)} (h : SkipsOthers table) :
    snapshotOfEntries (entriesOf (fieldEntries Snapshot.Field table)) =
      snapshotOfEntries (entriesOf table) := by
  rw [snapshotOfEntries, SnapshotFields.record.foldlM_fieldEntries h, snapshotOfEntries]

/-! ## What is reported -/

theorem SnapshotFields.has_eq_false {fields : SnapshotFields} {field : Snapshot.Field} :
    fields.has field = false ↔ (record (ν := ν)).met fields field = none := by
  cases field <;> exact Option.isSome_eq_false_iff.trans Option.isNone_iff_eq_none

theorem SnapshotFields.namesRepeated : (record : Record (ν := ν) _ _ _).NamesRepeated := by
  intro fields field value hmet
  have hhas : fields.has field = true :=
    eq_true_of_ne_false fun hno => hmet (has_eq_false.mp hno)
  rw [step, Documented.find?_name]
  exact if_pos hhas

/-- Of the fields that have not been met the first one is reported. -/
theorem SnapshotFields.finish_eq_error {fields : SnapshotFields} {failure : Failure} :
    fields.finish = .error failure ↔ ∃ front field back,
      (Named.all : List Snapshot.Field) = front ++ field :: back ∧
        (∀ other ∈ front, fields.has other = true) ∧ fields.has field = false ∧
          failure = .data (.missingField (Named.name field)) := by
  have hfirst : fields.finish = .error failure ↔ ∃ field,
      (Named.all : List Snapshot.Field).find? (fun field => !fields.has field) = some field ∧
        failure = .data (.missingField (Named.name field)) := by
    cases hfind : (Named.all : List Snapshot.Field).find? fun field => !fields.has field with
    | some missing => simp [finish, hfind, Snapshot.Field.documentName_eq_name, eq_comm]
    | none =>
      have hhas : ∀ field, fields.has field = true := by
        intro field
        simpa using List.find?_eq_none.mp hfind field (Named.mem_all field)
      rcases Option.isSome_iff_exists.mp (hhas .kind) with ⟨kind, hkind⟩
      rcases Option.isSome_iff_exists.mp (hhas .tailPadding) with ⟨rule, hrule⟩
      simp [finish, hfind, hkind, hrule]
  simp only [hfirst, List.find?_eq_some_iff_append, Bool.not_eq_true', Bool.not_not]
  constructor
  · rintro ⟨field, ⟨hfield, front, back, hall, hfront⟩, rfl⟩
    exact ⟨front, field, back, hall, hfront, hfield, rfl⟩
  · rintro ⟨front, field, back, hall, hfront, hfield, rfl⟩
    exact ⟨field, ⟨hfield, front, back, hall, hfront⟩, rfl⟩

/-- What is reported about a table that makes no snapshot: its first entry that does not fit, and
only where all of them do, the first field in order that is missing. -/
inductive SnapshotFault (table : List (String × ν)) : Failure → Prop where
  | entry {failure : Failure} (h : SnapshotFields.record.FirstFault {} table failure) :
      SnapshotFault table failure
  | missing {front back : List Snapshot.Field} {field : Snapshot.Field}
      (hfits : SnapshotFields.record.Fits {} table) (hall : Named.all = front ++ field :: back)
      (hfront : ∀ other ∈ front, Named.name other ∈ keys table)
      (hfield : Named.name field ∉ keys table) :
      SnapshotFault table (.data (.missingField (Named.name field)))

theorem SnapshotFields.isOpen (field : Snapshot.Field) :
    (record (ν := ν)).met {} field = none := by
  cases field <;> rfl

/-- After a table has been taken up, the fields that have not been met are those without a key. -/
theorem SnapshotFields.has_iff {table : List (String × ν)} {fields : SnapshotFields}
    (h : record.Fills {} table fields) (field : Snapshot.Field) :
    fields.has field = true ↔ Named.name field ∈ keys table := by
  rw [← not_iff_not, Bool.not_eq_true, has_eq_false (ν := ν)]
  exact h.met_iff field (isOpen field)

theorem snapshotOfEntries_eq_error {table : List (String × ν)} {failure : Failure} :
    snapshotOfEntries (entriesOf table) = .error failure ↔ SnapshotFault table failure := by
  rw [snapshotOfEntries, bind_eq_error, SnapshotFields.record.foldlM_eq_error
    SnapshotFields.namesRepeated SnapshotFields.isOpen]
  constructor
  · rintro (hfirst | ⟨fields, hfold, hfinish⟩)
    · exact .entry hfirst
    · have hfits := SnapshotFields.record.exists_foldlM.mp ⟨fields, hfold⟩
      have hhas := SnapshotFields.has_iff (SnapshotFields.record.fills_of_foldlM hfold)
      rcases SnapshotFields.finish_eq_error.mp hfinish
        with ⟨front, field, back, hall, hfront, hfield, rfl⟩
      refine .missing hfits hall (fun other hother => (hhas other).mp (hfront other hother)) ?_
      exact fun hmem => Bool.false_ne_true (hfield.symm.trans ((hhas field).mpr hmem))
  · intro h
    cases h with
    | entry hfirst => exact .inl hfirst
    | @missing front back field hfits hall hfront hno =>
      rcases hfits.fills with ⟨fields, hfills⟩
      have hhas := SnapshotFields.has_iff hfills
      have hfield : fields.has field = false :=
        eq_false_of_ne_true fun htrue => hno ((hhas field).mp htrue)
      refine .inr ⟨fields, hfills.foldlM, SnapshotFields.finish_eq_error.mpr ?_⟩
      exact ⟨front, field, back, hall, fun other hother => (hhas other).mpr (hfront other hother),
        hfield, rfl⟩

/-! ## What is decoded -/

variable [TreeFormat ν]

open TreeFormat

/-- Every field occurs once, with a value of its type. -/
structure IsSnapshot (table : List (String × ν)) : Prop where
  once : ∀ field : Snapshot.Field, (keys table).count (Named.name field) = 1
  isKind : ∀ value, ("kind", value) ∈ table → ∃ kind : Kind, Format.choice value = .ok kind
  isBoolean : ∀ (property : Property) value, (property.key, value) ∈ table →
    ∃ truth, value = ofBoolean truth
  isRule : ∀ value, (tailPaddingKey, value) ∈ table →
    ∃ rule : TailPadding, Format.choice value = .ok rule

/-- A field that occurs once has a value. -/
theorem IsSnapshot.exists_value {table : List (String × ν)} (h : IsSnapshot table)
    (field : Snapshot.Field) : ∃ value, (Named.name field, value) ∈ table :=
  mem_keys.mp (List.count_pos_iff.mp (by simp [h.once field]))

theorem IsSnapshot.exists_denotes {table : List (String × ν)} (h : IsSnapshot table) :
    ∃ snapshot, DenotesSnapshot table snapshot := by
  rcases h.exists_value .kind with ⟨kindValue, hkind⟩
  rcases h.isKind kindValue hkind with ⟨kind, hchoice⟩
  rcases h.exists_value .tailPadding with ⟨ruleValue, hrule⟩
  rcases h.isRule ruleValue hrule with ⟨rule, hruleChoice⟩
  have hvalue : ∀ property : Property, ∃ truth, (property.key, ofBoolean truth) ∈ table := by
    intro property
    rcases h.exists_value (.value property) with ⟨value, hmem⟩
    rcases h.isBoolean property value hmem with ⟨truth, rfl⟩
    exact ⟨truth, hmem⟩
  rcases Classical.axiomOfChoice hvalue with ⟨value, hvalue⟩
  refine ⟨.ofValues kind value rule, ⟨kindValue, hkind, hchoice⟩, fun property => ?_,
    ruleValue, hrule, hruleChoice⟩
  exact (Snapshot.value_ofValues kind value rule property).symm ▸ hvalue property

theorem DenotesSnapshot.isSnapshot {table : List (String × ν)} {snapshot : Snapshot}
    (h : DenotesSnapshot table snapshot)
    (honce : ∀ field : Snapshot.Field, (keys table).count (Named.name field) ≤ 1) :
    IsSnapshot table := by
  rcases h.kind with ⟨kindValue, hkind, hchoice⟩
  rcases h.tailPadding with ⟨ruleValue, hrule, hruleChoice⟩
  refine ⟨fun field => ?_, fun value hmem => ?_, fun property value hmem => ?_,
    fun value hmem => ?_⟩
  · have hkey : Named.name field ∈ keys table := by
      cases field with
      | kind => exact mem_keys_of_mem hkind
      | value property => exact mem_keys_of_mem (h.value property)
      | tailPadding => exact mem_keys_of_mem hrule
    exact Nat.le_antisymm (honce field) (List.count_pos_iff.mpr hkey)
  · exact ⟨snapshot.kind, value_unique_of_count (honce .kind) hmem hkind ▸ hchoice⟩
  · exact ⟨snapshot.value property,
      value_unique_of_count (honce (.value property)) hmem (h.value property)⟩
  · exact ⟨snapshot.tailPadding,
      value_unique_of_count (honce .tailPadding) hmem hrule ▸ hruleChoice⟩

/-- A table makes a snapshot if and only if each field occurs once with a value of its type, and
then the snapshot that it says. Nothing is ever wrong with an entry that is no field. -/
structure LooselyDecoded (table : List (String × ν)) (result : Except Failure Snapshot) : Prop where
  succeeds : (∃ snapshot, result = .ok snapshot) ↔ IsSnapshot table
  denotes : ∀ snapshot, result = .ok snapshot ↔ IsSnapshot table ∧ DenotesSnapshot table snapshot
  reports : ∀ failure, result = .error failure ↔ SnapshotFault table failure
  skips : SkipsOthers table

theorem SkipsOthers.looselyDecoded {table : List (String × ν)} (hskips : SkipsOthers table) :
    LooselyDecoded table (snapshotOfEntries (entriesOf table)) := by
  have hdenotes : ∀ snapshot, snapshotOfEntries (entriesOf table) = .ok snapshot ↔
      IsSnapshot table ∧ DenotesSnapshot table snapshot := by
    intro snapshot
    rw [snapshotOfEntries_eq_ok]
    constructor
    · rintro ⟨honce, _, h⟩
      exact ⟨h.isSnapshot honce, h⟩
    · rintro ⟨hfields, h⟩
      exact ⟨fun field => (hfields.once field).le, hskips, h⟩
  refine ⟨?_, hdenotes, fun failure => snapshotOfEntries_eq_error, hskips⟩
  simp only [hdenotes, exists_and_left]
  exact and_iff_left_of_imp IsSnapshot.exists_denotes

/-! ## Order -/

omit [Format ν] [TreeFormat ν] in
theorem mem_fieldEntries {φ : Type} [Named φ] {table : List (String × ν)} {field : φ} {value : ν} :
    (Named.name field, value) ∈ fieldEntries φ table ↔ (Named.name field, value) ∈ table := by
  simp [fieldEntries]

/-- What a table says depends on the fields in it, and not on their order. -/
theorem DenotesSnapshot.of_fieldEntries {a b : List (String × ν)}
    (hperm : (fieldEntries Snapshot.Field a).Perm (fieldEntries Snapshot.Field b))
    {snapshot : Snapshot} (h : DenotesSnapshot a snapshot) : DenotesSnapshot b snapshot := by
  have hmem : ∀ (field : Snapshot.Field) value,
      (Named.name field, value) ∈ a → (Named.name field, value) ∈ b := by
    intro field value hvalue
    exact mem_fieldEntries.mp (hperm.mem_iff.mp (mem_fieldEntries.mpr hvalue))
  refine ⟨h.kind.imp fun value => ?_, fun property => ?_, h.tailPadding.imp fun value => ?_⟩
  · exact And.imp_left (hmem .kind value)
  · exact hmem (.value property) _ (h.value property)
  · exact And.imp_left (hmem .tailPadding value)

omit [Format ν] [TreeFormat ν] in
theorem keys_fieldEntries (φ : Type) [Named φ] (table : List (String × ν)) :
    keys (fieldEntries φ table) =
      (keys table).filter fun key => (Named.find? key : Option φ).isSome := by
  rw [keys, keys, List.filter_map]
  rfl

omit [Format ν] [TreeFormat ν] in
/-- A field occurs as often among the fields as in the table. -/
theorem count_fieldEntries {φ : Type} [Named φ] (table : List (String × ν)) (field : φ) :
    (keys (fieldEntries φ table)).count (Named.name field) =
      (keys table).count (Named.name field) := by
  rw [keys_fieldEntries, List.count_filter (by simp)]

/-- How the outcomes for two tables are related that have fields in common. -/
structure FieldsDecide (a b : List (String × ν)) (outcome other : Except Failure Snapshot) :
    Prop where
  /-- Entries that are no field may be put in and taken out anywhere. -/
  others : fieldEntries Snapshot.Field a = fieldEntries Snapshot.Field b → outcome = other
  /-- Beside that, all entries may be moved, also those of fields. -/
  order : (fieldEntries Snapshot.Field a).Perm (fieldEntries Snapshot.Field b) →
    ∀ snapshot, outcome = .ok snapshot → other = .ok snapshot

theorem SkipsOthers.fieldsDecide {a b : List (String × ν)} (ha : SkipsOthers a)
    (hb : SkipsOthers b) :
    FieldsDecide a b (snapshotOfEntries (entriesOf a)) (snapshotOfEntries (entriesOf b)) := by
  refine ⟨fun hfields => ?_, fun hperm snapshot h => ?_⟩
  · rw [← snapshotOfEntries_fieldEntries ha, hfields, snapshotOfEntries_fieldEntries hb]
  · rcases snapshotOfEntries_eq_ok.mp h with ⟨honce, _, hdenotes⟩
    refine snapshotOfEntries_eq_ok.mpr ⟨fun field => ?_, hb, hdenotes.of_fieldEntries hperm⟩
    have hcount := (hperm.map Prod.fst).count_eq (Named.name field)
    change (keys (fieldEntries _ a)).count _ = (keys (fieldEntries _ b)).count _ at hcount
    rw [← count_fieldEntries, ← hcount, count_fieldEntries]
    exact honce field

end Decode

open Decode

/-! ## Both formats -/

namespace Toml

theorem snapshot?_of_read? {text : String} {table : Table} (h : read? text = some table) :
    snapshot? text = snapshotOfEntries (entriesOf table) :=
  decode_of_read? h

theorem skipsOthers (table : Table) : SkipsOthers table := fun _ _ _ _ => rfl

end Toml

namespace Json

theorem snapshot?_of_scan {text : String} {table : List (String × Scan)}
    (h : scan text = (Scan.ofTable table, false)) :
    snapshot? text = snapshotOfEntries (entriesOf table) := by
  rw [snapshot?, decode_of_scan h, ← Scan.steps_ofTable]
  rfl

theorem entriesAreWhole_iff {entries : List (Option String × Scan)} :
    Scan.entriesAreWhole entries = true ↔ ∀ entry ∈ entries, entry.2.isWhole = true := by
  induction entries with
  | nil => simp [Scan.entriesAreWhole]
  | cons entry entries ih => simp [Scan.entriesAreWhole, ih]

/-- In an object that is closed nothing is broken, however deep it stands. -/
theorem skipsOthers_of_scan {text : String} {table : List (String × Scan)} {trailing : Bool}
    (h : scan text = (Scan.ofTable table, trailing)) : SkipsOthers table := by
  intro key value hmem _
  have hfinished : ¬ (Scan.ofTable table).Unfinished := by
    rintro ⟨⟩
    contradiction
  have hwhole := isWhole_of_scan h hfinished
  rw [Scan.ofTable, Scan.isWhole, Bool.and_eq_true, entriesAreWhole_iff] at hwhole
  exact if_pos (hwhole.2 _ (List.mem_map_of_mem hmem))

/-- An object is decoded only if it is closed and each of its keys is a text. -/
theorem isTable_of_snapshot? {text : String} {entries : List (Option String × Scan)}
    {ending : Ending} (h : scan text = (.object entries ending, false)) {s : Snapshot}
    (hs : snapshot? text = .ok s) : ∃ table, Scan.object entries ending = Scan.ofTable table := by
  rw [snapshot?, decode_of_scan h] at hs
  rcases bind_eq_ok.mp hs with ⟨steps, hsteps, hs⟩
  rcases bind_eq_ok.mp hs with ⟨fields, hfold, _⟩
  rcases SnapshotFields.record.entriesOf_of_foldlM hfold with ⟨table, rfl⟩
  exact ⟨table, Scan.entries_eq_ok hsteps⟩

end Json

namespace Decode

/-- In both formats a document that follows its grammar makes a snapshot exactly if each of the ten
fields occurs once with a value of its type, and then each fact has the value under its key. Other
entries have no effect. If there is no snapshot, the first field that does not fit is reported, and
if all of them fit the first that is missing. -/
theorem snapshots_are_decoded_loosely :
    (∀ text table, Toml.read? text = some table →
      LooselyDecoded table (Toml.snapshot? text) ∧
      ∀ other table', Toml.read? other = some table' →
        FieldsDecide table table' (Toml.snapshot? text) (Toml.snapshot? other)) ∧
    (∀ text table, Json.scan text = (Json.Scan.ofTable table, false) →
      LooselyDecoded table (Json.snapshot? text) ∧
      ∀ other table', Json.scan other = (Json.Scan.ofTable table', false) →
        FieldsDecide table table' (Json.snapshot? text) (Json.snapshot? other)) ∧
    ∀ text entries ending, Json.scan text = (.object entries ending, false) →
      ∀ snapshot, Json.snapshot? text = .ok snapshot →
        ∃ table, Json.Scan.object entries ending = Json.Scan.ofTable table := by
  refine ⟨fun text table h => ?_, fun text table h => ?_,
    fun text entries ending h snapshot => Json.isTable_of_snapshot? h⟩
  · rw [Toml.snapshot?_of_read? h]
    refine ⟨(Toml.skipsOthers table).looselyDecoded, fun other table' hother => ?_⟩
    rw [Toml.snapshot?_of_read? hother]
    exact (Toml.skipsOthers table).fieldsDecide (Toml.skipsOthers table')
  · have hskips := Json.skipsOthers_of_scan h
    rw [Json.snapshot?_of_scan h]
    refine ⟨hskips.looselyDecoded, fun other table' hother => ?_⟩
    rw [Json.snapshot?_of_scan hother]
    exact hskips.fieldsDecide (Json.skipsOthers_of_scan hother)

theorem perm_swap_ends {α : Type} (a b : α) (items : List α) :
    (a :: items ++ [b]).Perm (b :: items ++ [a]) := by
  have hfirst := List.perm_append_singleton a (items ++ [b])
  have hlast := (List.perm_append_singleton b items).append_right [a]
  exact hfirst.symm.trans hlast

/-- A snapshot with its tail padding first and its kind last, and in between a key that is no field
and occurs twice, once with an object in an array. -/
def scattered (s : Snapshot) : Json :=
  .object ([("tail-padding", .string s.tailPadding.name),
      ("colour", .array [.object [("kind", .null)]])] ++
    s.entries.map (fun (property, value) => (property.key, .boolean value)) ++
    [("colour", .null), ("kind", .string s.kind.name)])

/-- It is decoded to the snapshot that stands in it, as its plain text is. -/
theorem scattered_facts_are_decoded :
    Json.snapshot? (scattered (Descriptor.snapshot ⟨.ios⟩)).compact =
      .ok (Descriptor.snapshot ⟨.ios⟩) := by
  have hplain := Json.scan_write Json.Layout.compact_isBlank
    (Snapshot.isIntegral_toJson (Descriptor.snapshot ⟨.ios⟩))
  have hscattered : Json.isIntegral (scattered (Descriptor.snapshot ⟨.ios⟩)) :=
    ⟨trivial, ⟨⟨trivial, trivial⟩, trivial⟩, trivial, trivial, trivial, trivial, trivial, trivial,
      trivial, trivial, trivial, trivial, trivial⟩
  have hscan := Json.scan_write Json.Layout.compact_isBlank hscattered
  rw [Snapshot.ofJson_toJson] at hplain
  rw [scattered, Json.Scan.ofJson_object] at hscan
  refine ((snapshots_are_decoded_loosely.2.1 _ _ hplain).2 _ _ hscan).order ?_ _
    (Json.snapshot?_toJson _).1
  exact perm_swap_ends ("kind", Json.Scan.string (some "ios")) (tailPaddingKey, _)
    ((Descriptor.snapshot ⟨.ios⟩).entries.map pinEntry)

end Decode
end AbiFacts
