import AbiFacts.Profile.Written
import AbiFacts.Proofs.Decode.Written
import AbiFacts.Proofs.Json.Decoding
import AbiFacts.Proofs.Json.Scans

/-! # Reading back written JSON

Profiles, expectations and snapshots are written as objects whose table is the table of the value.
So in both layouts the text is read back as the value that it was written for, and writing that
value again changes nothing.
-/
namespace AbiFacts

open Decode Json

namespace Json

theorem Scan.ofEntries_eq_map (entries : List (String × Json)) :
    ofEntries entries = entries.map fun entry => (some entry.1, ofJson entry.2) := by
  induction entries with
  | nil => rfl
  | cons entry entries ih => rw [ofEntries, ih, List.map_cons]

/-- The scan of an object is the table of the scans of its values. -/
theorem Scan.ofJson_object (entries : List (String × Json)) :
    ofJson (.object entries) = ofTable (entries.map fun entry => (entry.1, ofJson entry.2)) := by
  rw [ofJson, ofEntries_eq_map, ofTable, List.map_map]
  rfl

theorem entriesAreIntegral_iff {entries : List (String × Json)} :
    entriesAreIntegral entries ↔ ∀ entry ∈ entries, isIntegral entry.2 := by
  induction entries with
  | nil => simp [entriesAreIntegral]
  | cons entry entries ih => simp [entriesAreIntegral, ih]

/-- What a written value is decoded to is decided by its scan. -/
theorem decode_write {α : Type} {read : Scan → Except Failure α} {value : Json} {a : α}
    (hvalue : isIntegral value) (hread : read (Scan.ofJson value) = .ok a) :
    decode read value.compact = .ok a ∧ decode read value.pretty = .ok a := by
  have hcompact := scan_write Layout.compact_isBlank hvalue
  have hpretty := scan_write Layout.pretty_isBlank hvalue
  rw [decode, decode, compact, pretty, hcompact, hpretty]
  simp [hread, bind, Except.bind, pure, Except.pure]

end Json

/-! ## Expectations -/

theorem Expectations.ofJson_toJson (e : Expectations) :
    Scan.ofJson e.toJson = Scan.ofTable e.tableOf := by
  rw [toJson, Scan.ofJson_object, tableOf, List.map_append, List.map_map]
  simp only [Property.documentName_eq_key, Field.documentName_tailPadding,
    TailPadding.documentName_eq_name]
  cases e.tailPadding <;> rfl

theorem Expectations.isIntegral_toJson (e : Expectations) : isIntegral e.toJson := by
  refine entriesAreIntegral_iff.mpr fun entry hentry => ?_
  rw [List.mem_append, List.mem_map] at hentry
  obtain ⟨pin, _, rfl⟩ | hentry := hentry
  · exact trivial
  · obtain ⟨rule, _, rfl⟩ := mem_optionalEntry.mp hentry
    exact trivial

theorem Json.expectations?_toJson (e : Expectations) :
    expectations? e.toJson.compact = .ok e ∧ expectations? e.toJson.pretty = .ok e := by
  refine decode_write e.isIntegral_toJson ?_
  rw [e.ofJson_toJson]
  exact expectations_eq_ok.mpr ⟨_, rfl, e.expectationsOfEntries_tableOf _⟩

/-! ## Snapshots -/

theorem Snapshot.ofJson_toJson (s : Snapshot) :
    Scan.ofJson s.toJson = Scan.ofTable s.tableOf := by
  rw [toJson, Scan.ofJson_object, tableOf, List.map_append, List.map_cons, List.map_map]
  simp only [Field.documentName_eq_name, Kind.documentName_eq_name,
    TailPadding.documentName_eq_name]
  rfl

theorem Snapshot.isIntegral_toJson (s : Snapshot) : isIntegral s.toJson := by
  refine entriesAreIntegral_iff.mpr fun entry hentry => ?_
  rw [List.cons_append, List.mem_cons, List.mem_append, List.mem_map, List.mem_singleton] at hentry
  obtain rfl | ⟨pin, _, rfl⟩ | rfl := hentry <;> exact trivial

theorem Json.snapshot?_toJson (s : Snapshot) :
    snapshot? s.toJson.compact = .ok s ∧ snapshot? s.toJson.pretty = .ok s := by
  refine decode_write s.isIntegral_toJson ?_
  rw [s.ofJson_toJson]
  have hentries := Scan.steps_ofTable s.tableOf
  exact bind_eq_ok.mpr ⟨_, congrArg Except.ok hentries, s.snapshotOfEntries_tableOf⟩

/-! ## Profiles -/

theorem Profile.ofJson_toJson (p : Profile) : Scan.ofJson p.toJson = Scan.ofTable p.tableOf := by
  obtain ⟨name, abi, description, expect⟩ := p
  rw [toJson, Scan.ofJson_object, Kind.documentName_eq_name]
  cases expect with
  | none => cases description <;> rfl
  | some e =>
    have hexpect := e.ofJson_toJson
    cases description <;> simp only [List.map_append, Option.map_some, Option.toList_some,
      List.map_cons, hexpect] <;> rfl

theorem Profile.isIntegral_toJson (p : Profile) : isIntegral p.toJson := by
  refine entriesAreIntegral_iff.mpr fun entry hentry => ?_
  simp only [List.mem_append, List.mem_cons, List.not_mem_nil, or_false] at hentry
  obtain ((rfl | rfl) | hdescription) | hexpect := hentry
  · exact trivial
  · exact trivial
  · obtain ⟨text, _, rfl⟩ := mem_optionalEntry.mp hdescription
    exact trivial
  · obtain ⟨e, _, rfl⟩ := mem_optionalEntry.mp hexpect
    exact e.isIntegral_toJson

theorem Json.profile?_toJson (p : Profile) :
    profile? p.toJson.compact = .ok p ∧ profile? p.toJson.pretty = .ok p := by
  refine decode_write p.isIntegral_toJson ?_
  rw [p.ofJson_toJson]
  have hentries := Scan.steps_ofTable p.tableOf
  exact bind_eq_ok.mpr ⟨_, congrArg Except.ok hentries, p.profileOfEntries_tableOf _⟩

/-! ## Both layouts -/

/-- Each value is read back from its text, and writing what has been read gives this text again. -/
def ReadsBack {α : Type} (read : String → Except Failure α) (write : α → String) : Prop :=
  ∀ value, read (write value) = .ok value ∧ write <$> read (write value) = .ok (write value)

theorem ReadsBack.of_read {α : Type} {read : String → Except Failure α} {write : α → String}
    (h : ∀ value, read (write value) = .ok value) : ReadsBack read write := by
  intro value
  rw [h value]
  exact ⟨rfl, rfl⟩

/-- Whatever the texts and values in them, all profiles, expectations and snapshots are read back
from their compact and from their pretty JSON texts. -/
theorem Json.reads_back_compact_and_pretty :
    ReadsBack Json.profile? (fun profile => profile.toJson.compact) ∧
    ReadsBack Json.profile? (fun profile => profile.toJson.pretty) ∧
    ReadsBack Json.expectations? (fun expectations => expectations.toJson.compact) ∧
    ReadsBack Json.expectations? (fun expectations => expectations.toJson.pretty) ∧
    ReadsBack Json.snapshot? (fun snapshot => snapshot.toJson.compact) ∧
    ReadsBack Json.snapshot? (fun snapshot => snapshot.toJson.pretty) :=
  ⟨.of_read fun p => (profile?_toJson p).1, .of_read fun p => (profile?_toJson p).2,
    .of_read fun e => (expectations?_toJson e).1, .of_read fun e => (expectations?_toJson e).2,
    .of_read fun s => (snapshot?_toJson s).1, .of_read fun s => (snapshot?_toJson s).2⟩

end AbiFacts
