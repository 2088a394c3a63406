import AbiFacts.Proofs.Decode.Faults
import AbiFacts.Proofs.Decode.Strictness
import AbiFacts.Proofs.Json.Scans

/-! # What is reported about a defective profile

A profile is refused for its first entry that does not fit, and only if there is none for a field
that is missing. The table of expectations is different: its first pass decodes the tail padding
alone, so a bad tail padding is reported before any bad pin, wherever the two stand
(`defective_profiles_report_their_first_fault`).
-/
namespace AbiFacts

namespace Decode

variable {ν : Type} [Format ν]

/-! ## Expectations -/

theorem passRecord_namesRepeated (room : Nat) :
    (passRecord room : Record (ν := ν) _ _ _).NamesRepeated :=
  fun _ field value hmet => passStep_of_met hmet field value

theorem named_eq_error {α : Type} [Documented α] {text : String} {failure : Failure} :
    (named text : Except Failure α) = .error failure ↔
      (Named.find? text : Option α) = none ∧
        failure = .data (.unknownVariant text (Named.names α)) := by
  rw [named, Documented.find?_eq, Documented.documentNames_eq]
  cases (Named.find? text : Option α) <;> simp [eq_comm]

inductive PinFault : String × ν → Failure → Prop where
  | key {key : String} {value : ν} (h : (Named.find? key : Option Property) = none) :
      PinFault (key, value) (.data (.unknownVariant key (Named.names Property)))
  | value {property : Property} {value : ν} {failure : Failure}
      (h : Format.boolean value = .error failure) : PinFault (property.key, value) failure

theorem pin_eq_error {e : Expectations} {entry : String × ν} {failure : Failure} :
    pin e entry = .error failure ↔ PinFault entry failure := by
  obtain ⟨key, value⟩ := entry
  simp only [pin, bind_eq_error, named_eq_error, named_eq_ok]
  constructor
  · rintro (⟨hfind, rfl⟩ | ⟨property, rfl, hvalue | ⟨truth, _, hpure⟩⟩)
    · exact .key hfind
    · exact .value hvalue
    · cases hpure
  · intro h
    cases h with
    | key hfind => exact .inl ⟨hfind, rfl⟩
    | @value property _ _ hvalue => exact .inr ⟨property, rfl, .inl hvalue⟩

variable [TreeFormat ν]

open TreeFormat

/-- What is reported about a table of expectations: the first tail padding that does not fit, and
only where all of these do, the first other entry that is no pin. -/
inductive ExpectationsFault (room : Nat) (table : List (String × ν)) : Failure → Prop where
  | tailPadding {failure : Failure} (h : (passRecord room).FirstFault none table failure) :
      ExpectationsFault room table failure
  | pin {pins : List (Property × Bool)} {entry : String × ν} {back : List (String × ν)}
      {failure : Failure} (hfits : (passRecord room).Fits none table)
      (htable : withoutTailPadding table = pins.map pinEntry ++ entry :: back)
      (hfault : PinFault entry failure) : ExpectationsFault room table failure

theorem foldlM_pin_eq_error {table : List (String × ν)} {e : Expectations} {failure : Failure} :
    table.foldlM pin e = .error failure ↔ ∃ (pins : List (Property × Bool)) (entry : String × ν)
      (back : List (String × ν)), table = pins.map pinEntry ++ entry :: back ∧
        PinFault entry failure := by
  simp only [foldlM_eq_error, foldlM_pin_eq_ok, pin_eq_error]
  constructor
  · rintro ⟨_, entry, back, _, rfl, ⟨pins, rfl, _⟩, hfault⟩
    exact ⟨pins, entry, back, rfl, hfault⟩
  · rintro ⟨pins, entry, back, rfl, hfault⟩
    exact ⟨_, entry, back, _, rfl, ⟨pins, rfl, rfl⟩, hfault⟩

theorem expectationsOfEntries_eq_error {room : Nat} {table : List (String × ν)}
    {failure : Failure} :
    expectationsOfEntries room (entriesOf table) = .error failure ↔
      ExpectationsFault room table failure := by
  have hopen : ∀ field, (passRecord (ν := ν) room).met none field = none := fun _ => rfl
  simp only [expectationsOfEntries, separate_eq, filterMap_kept?, bind_eq_error, map_eq_error,
    map_eq_ok, (passRecord room).foldlM_eq_error (passRecord_namesRepeated room) hopen,
    foldlM_pin_eq_error]
  constructor
  · rintro (hfirst | ⟨_, ⟨met, hmet, rfl⟩, pins, entry, back, htable, hfault⟩)
    · exact .tailPadding hfirst
    · exact .pin ((passRecord room).exists_foldlM.mp ⟨met, hmet⟩) htable hfault
  · intro h
    cases h with
    | tailPadding hfirst => exact .inl hfirst
    | @pin pins entry back _ hfits htable hfault =>
      rcases (passRecord room).exists_foldlM.mpr hfits with ⟨met, hmet⟩
      exact .inr ⟨_, ⟨met, hmet, rfl⟩, pins, entry, back, htable, hfault⟩

/-! ## Profiles -/

omit [TreeFormat ν] in
theorem ProfileFields.namesRepeated (room : Nat) :
    (record room : Record (ν := ν) _ _ _).NamesRepeated := by
  intro fields field value hmet
  have hhas : fields.has field = true := by
    cases field <;> exact Option.isSome_iff_ne_none.mpr hmet
  rw [step, fieldFor_name, hhas]
  rfl

theorem ProfileFields.finish_eq_error {fields : ProfileFields} {failure : Failure} :
    fields.finish = .error failure ↔
      fields.name = none ∧ failure = .data (.missingField "name") ∨
        fields.name ≠ none ∧ fields.abi = none ∧ failure = .data (.missingField "abi") := by
  obtain ⟨name, abi, description, expect⟩ := fields
  cases name <;> cases abi <;> simp [finish, Named.name, eq_comm]

/-- What is reported about a table that makes no profile: its first entry that does not fit, and
only where all of them do, the name that is missing or else the kind. -/
inductive ProfileFault (room : Nat) (table : List (String × ν)) : Failure → Prop where
  | entry {failure : Failure} (h : (ProfileFields.record room).FirstFault {} table failure) :
      ProfileFault room table failure
  | noName (hfits : (ProfileFields.record room).Fits {} table) (hname : "name" ∉ keys table) :
      ProfileFault room table (.data (.missingField "name"))
  | noAbi (hfits : (ProfileFields.record room).Fits {} table) (hname : "name" ∈ keys table)
      (habi : "abi" ∉ keys table) : ProfileFault room table (.data (.missingField "abi"))

omit [TreeFormat ν] in
theorem profileOfEntries_eq_error {room : Nat} {table : List (String × ν)} {failure : Failure} :
    profileOfEntries room (entriesOf table) = .error failure ↔
      ProfileFault room table failure := by
  have hopen : ∀ field, (ProfileFields.record (ν := ν) room).met {} field = none := by
    rintro ⟨⟩ <;> rfl
  rw [profileOfEntries, bind_eq_error,
    (ProfileFields.record room).foldlM_eq_error (ProfileFields.namesRepeated room) hopen]
  constructor
  · rintro (hfirst | ⟨fields, hfold, hfinish⟩)
    · exact .entry hfirst
    · have hfits := (ProfileFields.record room).exists_foldlM.mp ⟨fields, hfold⟩
      have hmet := ((ProfileFields.record room).fills_of_foldlM hfold).met_iff
      rcases ProfileFields.finish_eq_error.mp hfinish with ⟨hname, rfl⟩ | ⟨hname, habi, rfl⟩
      · exact .noName hfits ((hmet .name rfl).mp hname)
      · refine .noAbi hfits ?_ ((hmet .abi rfl).mp habi)
        exact Classical.not_not.mp fun hno => hname ((hmet .name rfl).mpr hno)
  · intro h
    cases h with
    | entry hfirst => exact .inl hfirst
    | noName hfits hno =>
      rcases hfits.fills with ⟨fields, hfills⟩
      have hname : fields.name = none := (hfills.met_iff .name rfl).mpr hno
      exact .inr ⟨fields, hfills.foldlM, ProfileFields.finish_eq_error.mpr (.inl ⟨hname, rfl⟩)⟩
    | noAbi hfits hmem hno =>
      rcases hfits.fills with ⟨fields, hfills⟩
      have hname : fields.name ≠ none := fun hnone => (hfills.met_iff .name rfl).mp hnone hmem
      have habi : fields.abi = none := (hfills.met_iff .abi rfl).mpr hno
      exact .inr ⟨fields, hfills.foldlM, ProfileFields.finish_eq_error.mpr
        (.inr ⟨hname, habi, rfl⟩)⟩

/-- What is reported about the whole table, and what about its table of expectations. -/
structure ReportsFirstFault (room : Nat) (table : List (String × ν))
    (result : Except Failure Profile) : Prop where
  profile : ∀ failure, result = .error failure ↔ ProfileFault room table failure
  expect : ∀ inner, ("expect", ofTable inner) ∈ table → ∀ failure,
    expectations room (ofTable inner) = .error failure ↔
      ExpectationsFault (room - 1) inner failure

theorem reportsFirstFault (room : Nat) (table : List (String × ν)) :
    ReportsFirstFault room table (profileOfEntries room (entriesOf table)) where
  profile failure := profileOfEntries_eq_error
  expect inner _ failure := by rw [expectations_ofTable, expectationsOfEntries_eq_error]

/-- The first pass over expectations can keep every value for the second. -/
def KeepsExpectations (room : Nat) (table : List (String × ν)) : Prop :=
  ∀ inner, ("expect", ofTable inner) ∈ table → ∀ entry ∈ inner,
    Format.keep (room - 1) entry.2 = .ok ()

end Decode

open Decode

namespace Json

theorem entriesAreSound_iff {room : Nat} {entries : List (Option String × Scan)} :
    Scan.entriesAreSound room entries = true ↔
      ∀ entry ∈ entries, entry.1.isSome = true ∧ entry.2.isSound room = true := by
  induction entries with
  | nil => simp [Scan.entriesAreSound]
  | cons entry entries ih => simp [Scan.entriesAreSound, ih]

theorem isSound_ofTable {room : Nat} {table : List (String × Scan)} :
    (Scan.ofTable table).isSound room = true ↔
      0 < room ∧ ∀ entry ∈ table, entry.2.isSound (room - 1) = true := by
  simp only [Scan.ofTable, Scan.isSound, Bool.and_eq_true, decide_eq_true_eq, entriesAreSound_iff,
    List.forall_mem_map, Option.isSome_some, true_and, and_true]

/-- In a text of which every value can be read, every value can be kept. -/
theorem keepsExpectations_of_isSound {table : List (String × Scan)}
    (h : (Scan.ofTable table).isSound maxNesting = true) :
    KeepsExpectations (maxNesting - 1) table := by
  intro inner hinner entry hentry
  have hinner := (isSound_ofTable.mp h).2 _ hinner
  exact if_pos ((isSound_ofTable.mp hinner).2 entry hentry)

end Json

namespace Decode

/-- Of a profile that is not decoded the first fault is reported, and a table of expectations is
searched for a bad tail padding before its pins. In TOML nothing is repeated. In JSON the first pass
stops too where a value cannot be kept, but not in a text of which every value can be read. -/
theorem defective_profiles_report_their_first_fault :
    (∀ text table, Toml.read? text = some table →
      HasDistinctKeys table ∧ KeepsExpectations Toml.room table ∧
        ReportsFirstFault Toml.room table (Toml.profile? text)) ∧
    ∀ text table, Json.scan text = (Json.Scan.ofTable table, false) →
      ((Json.Scan.ofTable table).isSound Json.maxNesting = true →
        KeepsExpectations (Json.maxNesting - 1) table) ∧
      ReportsFirstFault (Json.maxNesting - 1) table (Json.profile? text) := by
  constructor
  · intro text table h
    refine ⟨Toml.hasDistinctKeys_of_read? h, fun _ _ _ _ => rfl, ?_⟩
    rw [Toml.profile?, Toml.decode_of_read? h]
    exact reportsFirstFault _ _
  · intro text table h
    refine ⟨Json.keepsExpectations_of_isSound, ?_⟩
    rw [Json.profile?_of_scan h, Json.profile_ofTable]
    exact reportsFirstFault _ _

/-- A profile with a pin that is none, a rule that is none, an unknown field, and no name. -/
def defective : Json :=
  .object [("expect", .object [("vtable", .boolean true), ("tail-padding", .string "none")]),
    ("colour", .null)]

def defectivePins : List (String × Json.Scan) :=
  [("vtable", .boolean true)] ++ [("tail-padding", .string (some "none"))]

/-- Of its four defects the rule is reported, which is not the first in the document. -/
theorem bad_tail_padding_is_reported_first :
    Json.profile? defective.compact =
      .error (.data (.unknownVariant "none" (Named.names TailPadding))) := by
  have hscan : Json.scan defective.compact =
      (Json.Scan.ofTable ([] ++ [("expect", Json.Scan.ofTable defectivePins), ("colour", .null)]),
        false) :=
    Json.scan_write Json.Layout.compact_isBlank ⟨⟨trivial, trivial, trivial⟩, trivial, trivial⟩
  have hreports := (defective_profiles_report_their_first_fault.2 _ _ hscan).2
  have hrule : Named.name Expectations.Field.tailPadding ∉
      keys [("vtable", Json.Scan.boolean true)] := by decide
  have hinner := (hreports.expect defectivePins (.head _) _).mpr
    (.tailPadding (.intro rfl ((passRecord _).exists_foldlM.mp ⟨_, rfl⟩) (.value hrule rfl)))
  have hexpect : Named.name Profile.Field.expect ∉ keys ([] : List (String × Json.Scan)) := by
    decide
  exact (hreports.profile _).mpr (.entry (.intro rfl
    ((ProfileFields.record _).exists_foldlM.mp ⟨_, rfl⟩)
    (.value hexpect (map_eq_error.mpr hinner))))

end Decode
end AbiFacts
