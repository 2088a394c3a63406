import AbiFacts.Profile.Written
import AbiFacts.Proofs.Decode.Written
import AbiFacts.Proofs.Toml.Decoding
import AbiFacts.Proofs.Toml.Documents

/-! # Reading back written TOML

Profiles, expectations and snapshots are written as documents whose table is the table of the value,
so each text is read back as the value that it was written for.
-/
namespace AbiFacts

open Decode Toml

theorem Toml.isLeaf_pins {pins : List (Property × Bool)} {rule : Option TailPadding} :
    ∀ entry ∈ pins.map pinEntry ++
      optionalEntry tailPaddingKey (fun rule => Value.string rule.name) rule, entry.2.IsLeaf := by
  intro entry hentry
  rw [List.mem_append, mem_optionalEntry, List.mem_map] at hentry
  obtain ⟨pin, _, rfl⟩ | ⟨rule, _, rfl⟩ := hentry <;> exact trivial

theorem Expectations.toTable_eq_tableOf (e : Expectations) : e.toTable = e.tableOf := by
  simp only [toTable, Property.documentName_eq_key, Field.documentName_tailPadding,
    TailPadding.documentName_eq_name]
  rfl

theorem Expectations.read?_toToml (e : Expectations) : read? e.toToml = some e.tableOf := by
  rw [toToml, e.toTable_eq_tableOf]
  exact read?_write_lines e.nodup_keys_tableOf isLeaf_pins

/-- Written expectations are read back. -/
theorem Toml.expectations?_toToml (e : Expectations) : expectations? e.toToml = .ok e := by
  rw [expectations?, decode_of_read? e.read?_toToml]
  exact e.expectationsOfEntries_tableOf room

theorem Snapshot.toTable_eq_tableOf (s : Snapshot) : s.toTable = s.tableOf := by
  simp only [toTable, Field.documentName_eq_name, Kind.documentName_eq_name,
    TailPadding.documentName_eq_name]
  rfl

theorem Snapshot.read?_toToml (s : Snapshot) : read? s.toToml = some s.tableOf := by
  have hleaf : ∀ entry ∈ (s.tableOf : Table), entry.2.IsLeaf := by
    intro entry hentry
    obtain rfl | hentry := List.mem_cons.mp hentry
    · exact trivial
    · exact isLeaf_pins entry hentry
  rw [toToml, s.toTable_eq_tableOf]
  exact read?_write_lines s.nodup_keys_tableOf hleaf

/-- A written snapshot is read back. -/
theorem Toml.snapshot?_toToml (s : Snapshot) : snapshot? s.toToml = .ok s := by
  rw [snapshot?, decode_of_read? s.read?_toToml]
  exact s.snapshotOfEntries_tableOf

theorem Profile.table_toDocument (p : Profile) : p.toDocument.table = p.tableOf := by
  obtain ⟨name, abi, description, expect⟩ := p
  rw [toDocument, Kind.documentName_eq_name]
  simp only [Expectations.toTable_eq_tableOf]
  cases expect <;> rfl

theorem Profile.isRecord_toDocument (p : Profile) : p.toDocument.IsRecord := by
  refine ⟨?_, fun entry hentry => ?_, fun entry hentry => ?_, fun entry hentry => ?_⟩
  · rw [p.table_toDocument]
    exact p.nodup_keys_tableOf
  · obtain ⟨e, _, rfl⟩ := mem_optionalEntry.mp hentry
    exact e.toTable_eq_tableOf ▸ e.nodup_keys_tableOf
  · rw [toDocument, List.mem_append] at hentry
    obtain hentry | hentry := hentry
    · obtain rfl | rfl := by simpa using hentry
      all_goals exact .leaf trivial
    · obtain ⟨text, _, rfl⟩ := mem_optionalEntry.mp hentry
      exact .leaf trivial
  · obtain ⟨e, _, rfl⟩ := mem_optionalEntry.mp hentry
    exact fun line hline => .leaf (isLeaf_pins line (e.toTable_eq_tableOf ▸ hline))

theorem Profile.read?_toToml (p : Profile) : read? p.toToml = some p.tableOf :=
  (read?_write p.isRecord_toDocument).trans (congrArg some p.table_toDocument)

/-- A written profile is read back. -/
theorem Toml.profile?_toToml (p : Profile) : profile? p.toToml = .ok p := by
  rw [profile?, decode_of_read? p.read?_toToml]
  exact p.profileOfEntries_tableOf room

/-- Whatever the texts in them, all profiles, expectations and snapshots are read back from their
TOML texts. -/
theorem Toml.reads_back_written :
    (∀ profile : Profile, profile? profile.toToml = .ok profile) ∧
    (∀ expectations : Expectations, expectations? expectations.toToml = .ok expectations) ∧
    ∀ snapshot : Snapshot, snapshot? snapshot.toToml = .ok snapshot :=
  ⟨profile?_toToml, expectations?_toToml, snapshot?_toToml⟩

end AbiFacts
