import AbiFacts.CommandLine.Run
import AbiFacts.Proofs.Decode.PinKeys
import AbiFacts.Proofs.Json.Respelling
import AbiFacts.Proofs.Lookup.KeyOrder
import AbiFacts.Proofs.Lookup.Spellings

/-! # Where names are exact

Facts, kinds and rules are named in many places: as arguments, as JSON strings, as keys of
expectations and as values in profiles, snapshots and expectations. In all of them the same texts
are taken for the same values, and only the argument that is a kind may be spelled loosely. What is
written has one name for each value (`names_are_read_alike`).
-/
namespace AbiFacts

namespace Decode

section
variable {ν : Type} [Format ν] [TreeFormat ν]

open TreeFormat

/-! ## Documents -/

/-- The decoders of a format. A document in the form of a table is decoded from this table. -/
structure Decoders (ν : Type) [Format ν] where
  HasTable : String → List (String × ν) → Prop
  room : Nat
  expectations? : String → Except Failure Expectations
  profile? : String → Except Failure Profile
  snapshot? : String → Except Failure Snapshot
  expectations_eq : ∀ {document table}, HasTable document table →
    expectations? document = expectationsOfEntries room (entriesOf table)
  profile_eq : ∀ {document table}, HasTable document table →
    profile? document = profileOfEntries room (entriesOf table)
  snapshot_eq : ∀ {document table}, HasTable document table →
    snapshot? document = snapshotOfEntries (entriesOf table)

/-- A text in all places of a document where a name may stand. Each time the rest of the table is
decoded with a known name in its place, or without the pin. -/
structure Decoders.ReadNames (decoders : Decoders ν) (text : String) : Prop where
  pin : ∀ document truth front back,
    decoders.HasTable document (front ++ (text, ofBoolean truth) :: back) →
      ReadsName text (expectationsOfEntries decoders.room (entriesOf (front ++ back)))
        (pinBefore back truth) (decoders.expectations? document) [tailPaddingKey]
  rule : ∀ document front back,
    decoders.HasTable document (front ++ (tailPaddingKey, ofText text) :: back) →
      ∀ known : TailPadding, ReadsName text
        (expectationsOfEntries decoders.room
          (entriesOf (front ++ (tailPaddingKey, ofText known.name) :: back)))
        (fun (rule : TailPadding) (e : Expectations) => { e with tailPadding := some rule })
        (decoders.expectations? document)
  abi : ∀ document front back,
    decoders.HasTable document (front ++ ("abi", ofText text) :: back) →
      ∀ known : Kind, ReadsName text
        (profileOfEntries decoders.room (entriesOf (front ++ ("abi", ofText known.name) :: back)))
        (fun (kind : Kind) (profile : Profile) => { profile with abi := kind })
        (decoders.profile? document)
  profilePin : ∀ document truth front back outer more,
    decoders.HasTable document
      (outer ++ ("expect", ofTable (front ++ (text, ofBoolean truth) :: back)) :: more) →
      ReadsName text
        (profileOfEntries decoders.room
          (entriesOf (outer ++ ("expect", ofTable (front ++ back)) :: more)))
        (fun property (profile : Profile) =>
          { profile with expect := profile.expect.map (pinBefore back truth property) })
        (decoders.profile? document) [tailPaddingKey]
  kind : ∀ document front back,
    decoders.HasTable document (front ++ ("kind", ofText text) :: back) →
      ∀ known : Kind, ReadsName text
        (snapshotOfEntries (entriesOf (front ++ ("kind", ofText known.name) :: back)))
        (fun (kind : Kind) (snapshot : Snapshot) => { snapshot with kind := kind })
        (decoders.snapshot? document)
  snapshotRule : ∀ document front back,
    decoders.HasTable document (front ++ (tailPaddingKey, ofText text) :: back) →
      ∀ known : TailPadding, ReadsName text
        (snapshotOfEntries (entriesOf (front ++ (tailPaddingKey, ofText known.name) :: back)))
        (fun (rule : TailPadding) (snapshot : Snapshot) => { snapshot with tailPadding := rule })
        (decoders.snapshot? document)

theorem expectations_readsPin (hboolean : BooleanIsNoRule ν) (room : Nat) (text : String)
    (truth : Bool) (front back : List (String × ν)) :
    ReadsName text (optional (expectations room) (ofTable (front ++ back)))
      (fun property (e : Option Expectations) => e.map (pinBefore back truth property))
      (optional (expectations room) (ofTable (front ++ (text, ofBoolean truth) :: back)))
      [tailPaddingKey] := by
  have hoptional : ∀ table : List (String × ν), optional (expectations room) (ofTable table) =
      some <$> expectationsOfEntries (room - 1) (entriesOf table) := by
    intro table
    rw [optional, isNull_ofTable, expectations_ofTable]
    rfl
  rw [hoptional, hoptional]
  exact (readsName_pin hboolean (room - 1) text truth front back).map some some fun _ _ => rfl

theorem Decoders.readNames (hboolean : BooleanIsNoRule ν) (decoders : Decoders ν) (text : String) :
    decoders.ReadNames text where
  pin document truth front back h := by
    rw [decoders.expectations_eq h]
    exact readsName_pin hboolean decoders.room text truth front back
  rule document front back h known := by
    rw [decoders.expectations_eq h]
    exact (expectations_readsTailPadding decoders.room).readsName
      (readsName_optional text known) front back
  abi document front back h known := by
    rw [decoders.profile_eq h]
    exact (profile_readsAbi decoders.room).readsName (readsName_choice text known) front back
  profilePin document truth front back outer more h := by
    rw [decoders.profile_eq h]
    exact (profile_readsExpect decoders.room).readsName
      (expectations_readsPin hboolean decoders.room text truth front back) outer more
  kind document front back h known := by
    rw [decoders.snapshot_eq h]
    exact snapshot_readsKind.readsName (readsName_choice text known) front back
  snapshotRule document front back h known := by
    rw [decoders.snapshot_eq h]
    exact snapshot_readsTailPadding.readsName (readsName_choice text known) front back

end

end Decode

open Decode

/-- In TOML every document is a table. -/
def Toml.decoders : Decoders Toml.Value where
  HasTable document table := read? document = some table
  room := room
  expectations? := expectations?
  profile? := profile?
  snapshot? := snapshot?
  expectations_eq := decode_of_read?
  profile_eq := decode_of_read?
  snapshot_eq := decode_of_read?

/-- In JSON an object is a table, with nothing but blanks after it. -/
def Json.decoders : Decoders Json.Scan where
  HasTable document table := scan document = (.ofTable table, false)
  room := maxNesting - 1
  expectations? := expectations?
  profile? := profile?
  snapshot? := snapshot?
  expectations_eq h := (expectations?_of_scan h).trans (expectations_ofTable _ _)
  profile_eq h := (profile?_of_scan h).trans (profile_ofTable _)
  snapshot_eq := snapshot?_of_scan

/-! ## Written names -/

section
variable {ν : Type} [Format ν] [TreeFormat ν]

open TreeFormat

def HoldsOnly (table : List (String × ν)) (key : String) (value : ν) : Prop :=
  ∀ other, (key, other) ∈ table ↔ other = value

omit [Format ν] [TreeFormat ν] in
theorem holdsOnly_of_mem {table : List (String × ν)} (hkeys : (keys table).Nodup) {key : String}
    {value : ν} (h : (key, value) ∈ table) : HoldsOnly table key value := by
  intro other
  constructor
  · exact fun hother => value_unique hkeys hother h
  · rintro rfl
    exact h

/-- The table has the keys of the facts that are pinned, and the rule by its name. -/
structure Expectations.NamedIn (e : Expectations) (table : List (String × ν)) : Prop where
  keys : ∀ key, key ∈ keys table ↔
    (∃ property : Property, key = property.key ∧ ∃ truth, e.pinned property = some truth) ∨
      key = tailPaddingKey ∧ ∃ rule, e.tailPadding = some rule
  rule : ∀ rule, e.tailPadding = some rule → HoldsOnly table tailPaddingKey (ofText rule.name)

theorem Expectations.namedIn_tableOf (e : Expectations) :
    e.NamedIn (e.tableOf : List (String × ν)) where
  keys key := by
    simp only [mem_keys, tableOf, List.mem_append, exists_or, List.mem_map, mem_optionalEntry,
      pinEntry, Prod.mk.injEq]
    constructor
    · rintro (⟨_, ⟨property, truth⟩, hpin, rfl, rfl⟩ | ⟨_, rule, hrule, rfl, rfl⟩)
      · exact .inl ⟨property, rfl, truth, mem_entries.mp hpin⟩
      · exact .inr ⟨rfl, rule, hrule⟩
    · rintro (⟨property, rfl, truth, hpin⟩ | ⟨rfl, rule, hrule⟩)
      · exact .inl ⟨_, (property, truth), mem_entries.mpr hpin, rfl, rfl⟩
      · exact .inr ⟨_, rule, hrule, rfl, rfl⟩
  rule rule hrule := holdsOnly_of_mem e.nodup_keys_tableOf
    (List.mem_append_right _ (mem_optionalEntry.mpr ⟨rule, hrule, rfl⟩))

structure Profile.NamedIn (p : Profile) (table : List (String × ν)) : Prop where
  abi : HoldsOnly table "abi" (ofText p.abi.name)
  expect : ∀ e, p.expect = some e →
    ∃ inner, HoldsOnly table "expect" (ofTable inner) ∧ e.NamedIn inner

theorem Profile.namedIn_tableOf (p : Profile) : p.NamedIn (p.tableOf : List (String × ν)) where
  abi := holdsOnly_of_mem p.nodup_keys_tableOf (mem_tableOf.mpr (.inr (.inl ⟨rfl, rfl⟩)))
  expect e he := ⟨e.tableOf, holdsOnly_of_mem p.nodup_keys_tableOf
    (mem_tableOf.mpr (.inr (.inr (.inr ⟨e, he, rfl, rfl⟩)))), e.namedIn_tableOf⟩

/-- The table has the keys of all facts, and the kind and the rule by their names. -/
structure Snapshot.NamedIn (s : Snapshot) (table : List (String × ν)) : Prop where
  keys : ∀ key, key ∈ keys table ↔
    key = "kind" ∨ (∃ property : Property, key = property.key) ∨ key = tailPaddingKey
  kind : HoldsOnly table "kind" (ofText s.kind.name)
  rule : HoldsOnly table tailPaddingKey (ofText s.tailPadding.name)

theorem Snapshot.namedIn_tableOf (s : Snapshot) : s.NamedIn (s.tableOf : List (String × ν)) where
  keys key := by
    have hfacts : keys (s.entries.map (pinEntry : _ → String × ν)) =
        Property.list.map Property.key := by
      simp [keys, entries, pinEntry]
    simp only [tableOf, keys_cons, keys_append, keys_optionalEntry, hfacts, List.mem_cons,
      List.mem_append, List.mem_map, Option.isSome_some, if_true, List.not_mem_nil, or_false]
    constructor
    · rintro (hkind | ⟨property, _, rfl⟩ | hrule)
      · exact .inl hkind
      · exact .inr (.inl ⟨property, rfl⟩)
      · exact .inr (.inr hrule)
    · rintro (hkind | ⟨property, rfl⟩ | hrule)
      · exact .inl hkind
      · exact .inr (.inl ⟨property, Named.mem_all property, rfl⟩)
      · exact .inr (.inr hrule)
  kind := holdsOnly_of_mem s.nodup_keys_tableOf (.head _)
  rule := holdsOnly_of_mem s.nodup_keys_tableOf (.tail _ (List.mem_append_right _ (.head _)))

end

/-- The documents that are written have tables of this sort. -/
structure WrittenWith (json : Json) (toml : String)
    (sort : (ν : Type) → [Format ν] → [TreeFormat ν] → List (String × ν) → Prop) : Prop where
  compact : ∃ table, Json.decoders.HasTable json.compact table ∧ sort Json.Scan table
  pretty : ∃ table, Json.decoders.HasTable json.pretty table ∧ sort Json.Scan table
  toml : ∃ table, Toml.decoders.HasTable toml table ∧ sort Toml.Value table

theorem Expectations.writtenWith (e : Expectations) :
    WrittenWith e.toJson e.toToml fun _ => e.NamedIn := by
  have hscan : ∀ {layout : Json.Layout}, layout.IsBlank →
      Json.scan (String.ofList (Json.write layout 0 e.toJson)) = (.ofTable e.tableOf, false) :=
    fun hlayout => e.ofJson_toJson ▸ Json.scan_write hlayout e.isIntegral_toJson
  constructor
  · exact ⟨e.tableOf, hscan Json.Layout.compact_isBlank, e.namedIn_tableOf⟩
  · exact ⟨e.tableOf, hscan Json.Layout.pretty_isBlank, e.namedIn_tableOf⟩
  · exact ⟨e.tableOf, e.read?_toToml, e.namedIn_tableOf⟩

theorem Profile.writtenWith (p : Profile) : WrittenWith p.toJson p.toToml fun _ => p.NamedIn where
  compact := ⟨p.tableOf, p.writtenPlainly.compact, p.namedIn_tableOf⟩
  pretty := ⟨p.tableOf, p.writtenPlainly.pretty, p.namedIn_tableOf⟩
  toml := ⟨p.tableOf, p.read?_toToml, p.namedIn_tableOf⟩

theorem Snapshot.writtenWith (s : Snapshot) : WrittenWith s.toJson s.toToml fun _ => s.NamedIn where
  compact := ⟨s.tableOf, s.writtenPlainly.compact, s.namedIn_tableOf⟩
  pretty := ⟨s.tableOf, s.writtenPlainly.pretty, s.namedIn_tableOf⟩
  toml := ⟨s.tableOf, s.read?_toToml, s.namedIn_tableOf⟩

/-! ## All places of names -/

/-- A JSON document that is a string, read as a name of each type. -/
structure Json.ReadsString (document text : String) : Prop where
  property : ReadsName text (.ok ()) (fun (property : Property) _ => property) (property? document)
  kind : ReadsName text (.ok ()) (fun (kind : Kind) _ => kind) (kind? document)
  tailPadding : ReadsName text (.ok ()) (fun (rule : TailPadding) _ => rule) (tailPadding? document)

theorem Json.readsString {document text : String}
    (h : scan document = (.string (some text), false)) : ReadsString document text where
  property := by
    rw [property?, decode_of_scan h]
    exact readsName_named text ()
  kind := by
    rw [kind?, decode_of_scan h]
    exact readsName_named text ()
  tailPadding := by
    rw [tailPadding?, decode_of_scan h]
    exact readsName_named text ()

/-- Decoding refuses the text as a kind, alone and in a profile that has no other defect. -/
structure Kind.IsUnknownVariant (text : String) : Prop where
  alone : ∀ document, Json.scan document = (.string (some text), false) →
    Json.kind? document = .error (.data (.unknownVariant text (Named.names Kind)))
  profile : ∀ document front back,
    Toml.read? document = some (front ++ ("abi", .string text) :: back) →
      ∀ (known : Kind) profile, profileOfEntries Toml.room
        (entriesOf (front ++ ("abi", .string known.name) :: back)) = .ok profile →
          Toml.profile? document = .error (.data (.unknownVariant text (Named.names Kind)))

/-- Commands take the text as they take the name of the kind. -/
structure Kind.IsTakenFrom (kind : Kind) (text : String) : Prop where
  describe : ∀ format,
    CommandLine.describe text format = CommandLine.describe kind.name format
  new : ∀ {m : Type → Type} [Monad m] [Files.FileAccess m] (project : Files.Path) (name : String)
    (output : Option Files.Path),
    (CommandLine.new project name text output : m CommandLine.Report) =
      CommandLine.new project name kind.name output

theorem Kind.isTakenFrom {kind : Kind} {text : String} (h : ofText text = .ok kind) :
    kind.IsTakenFrom text where
  describe format := by
    rw [CommandLine.describe, CommandLine.describe, h, kind.ofText_name]
  new project name output := by
    rw [CommandLine.new, CommandLine.new, h, kind.ofText_name]

/-- A spelling of a kind that is not its name is no name of a kind. -/
theorem Kind.ne_name {kind : Kind} {text : String} (h : ofText text = .ok kind)
    (hname : text ≠ kind.name) (other : Kind) : text ≠ other.name := by
  rintro rfl
  rw [other.ofText_name] at h
  exact hname (congrArg name (Except.ok.inj h))

theorem Toml.booleanIsNoRule : BooleanIsNoRule Toml.Value :=
  fun _ => ⟨rfl, nofun⟩

theorem Json.booleanIsNoRule : BooleanIsNoRule Json.Scan :=
  fun _ => ⟨rfl, nofun⟩

theorem Kind.isUnknownVariant {text : String} (h : ∀ kind : Kind, text ≠ kind.name) :
    IsUnknownVariant text where
  alone _ hdocument := (Json.readsString hdocument).kind.refuses List.not_mem_nil h () rfl
  profile document front back hdocument known profile hknown :=
    ((Toml.decoders.readNames Toml.booleanIsNoRule text).abi document front back hdocument known)
      |>.refuses List.not_mem_nil h profile hknown

/-- What a text stands for wherever a name may stand. -/
structure IsReadAlike (text : String) : Prop where
  property : ∀ property, Property.ofText text = .ok property ↔ text = property.key
  string : ∀ document, Json.scan document = (.string (some text), false) →
    Json.ReadsString document text
  json : Json.decoders.ReadNames text
  toml : Toml.decoders.ReadNames text
  kind : ∀ kind : Kind, text = kind.name → Kind.ofText text = .ok kind
  taken : ∀ kind, Kind.ofText text = .ok kind → kind.IsTakenFrom text
  unknown : ∀ kind, Kind.ofText text = .ok kind → text ≠ kind.name → Kind.IsUnknownVariant text

/-- The names that documents give to values and fields are the names given elsewhere. -/
structure DocumentNamesAgree : Prop where
  property : ∀ property : Property, property.documentName = property.key
  kind : ∀ kind : Kind, kind.documentName = kind.name
  tailPadding : ∀ rule : TailPadding, rule.documentName = rule.name
  fact : ∀ property : Property, (Snapshot.Field.value property).documentName = property.key
  rule : Snapshot.Field.tailPadding.documentName = Expectations.Field.tailPadding.documentName

theorem documentNamesAgree : DocumentNamesAgree where
  property := Property.documentName_eq_key
  kind := Kind.documentName_eq_name
  tailPadding := TailPadding.documentName_eq_name
  fact property := Snapshot.Field.documentName_eq_name (.value property)
  rule := (Snapshot.Field.documentName_eq_name .tailPadding).trans
    Expectations.Field.documentName_tailPadding.symm

/-- The tables of names agree, so the names of facts, kinds and rules are taken exactly, in JSON and
in TOML and wherever they stand, and an argument that is a kind or a fact agrees with that. A kind
may be spelled otherwise as an argument, but not in a document. Whatever was read, names are
written. -/
theorem names_are_read_alike :
    DocumentNamesAgree ∧
    (∀ text : String, IsReadAlike text) ∧
    (∀ e : Expectations, WrittenWith e.toJson e.toToml fun _ => e.NamedIn) ∧
    (∀ p : Profile, WrittenWith p.toJson p.toToml fun _ => p.NamedIn) ∧
    ∀ s : Snapshot, WrittenWith s.toJson s.toToml fun _ => s.NamedIn := by
  refine ⟨documentNamesAgree, fun text => ?_, Expectations.writtenWith, Profile.writtenWith,
    Snapshot.writtenWith⟩
  constructor
  · exact fun property => Property.ofText_eq_ok
  · exact fun document => Json.readsString
  · exact Json.decoders.readNames Json.booleanIsNoRule text
  · exact Toml.decoders.readNames Toml.booleanIsNoRule text
  · rintro kind rfl
    exact kind.ofText_name
  · exact fun kind => Kind.isTakenFrom
  · exact fun kind h hname => Kind.isUnknownVariant (Kind.ne_name h hname)

def Toml.profileWithKind (text : String) : String :=
  Document.write ⟨[("name", .string "app")] ++ [("abi", .string text)], []⟩

theorem Toml.read?_profileWithKind (text : String) :
    read? (profileWithKind text) = some ([("name", .string "app")] ++ [("abi", .string text)]) := by
  apply read?_write_lines
  · exact (by decide : ["name", "abi"].Nodup)
  · rintro _ (_ | ⟨_, _ | ⟨_, ⟨⟩⟩⟩) <;> exact trivial

/-- A loose spelling of a kind is taken as an argument only, and a key that is spelled as other
names are is no key. -/
theorem loose_spellings_are_not_decoded :
    Json.kind? (Json.string "Generic_AArch64").compact =
      .error (.data (.unknownVariant "Generic_AArch64" (Named.names Kind))) ∧
    Json.kind? (Json.string "generic-aarch64").compact = .ok .genericAarch64 ∧
    Toml.profile? (Toml.profileWithKind "Generic_AArch64") =
      .error (.data (.unknownVariant "Generic_AArch64" (Named.names Kind))) ∧
    Toml.profile? (Toml.profileWithKind "generic-aarch64") =
      .ok { name := "app", abi := .genericAarch64 } ∧
    Json.expectations? (Json.object [("primary-vbases", .boolean true)]).compact =
      .ok (Expectations.setPin .primaryVirtualBases (some true) {}) ∧
    Json.expectations? (Json.object [("primary-v-bases", .boolean true)]).compact =
      .error (.data (.unknownVariant "primary-v-bases" (Named.names Property))) := by
  have hstring : ∀ text : String,
      Json.scan (Json.string text).compact = (.string (some text), false) :=
    fun _ => Json.scan_write Json.Layout.compact_isBlank trivial
  have hpin : ∀ text : String, Json.scan (Json.object [(text, .boolean true)]).compact =
      (.ofTable ([] ++ (text, .boolean true) :: []), false) :=
    fun _ => Json.scan_write Json.Layout.compact_isBlank ⟨trivial, trivial⟩
  have hloose : Kind.ofText "Generic_AArch64" = .ok .genericAarch64 := by decide
  have hknown : profileOfEntries Toml.room (entriesOf
      ([("name", Toml.Value.string "app")] ++ [("abi", .string Kind.ios.name)])) =
        .ok { name := "app", abi := .ios } := rfl
  have hunknown := (names_are_read_alike.2.1 "Generic_AArch64").unknown _ hloose (by decide)
  have hexact := names_are_read_alike.2.1 "generic-aarch64"
  have habi := hexact.toml.abi _ _ _ (Toml.read?_profileWithKind _) .ios
  have hkey := (names_are_read_alike.2.1 "primary-vbases").json.pin _ true [] [] (hpin _)
  have hnokey := (names_are_read_alike.2.1 "primary-v-bases").json.pin _ true [] [] (hpin _)
  refine ⟨hunknown.alone _ (hstring _),
    ((hexact.string _ (hstring _)).kind.accepts _).mpr ⟨_, (), rfl, rfl, rfl⟩,
    hunknown.profile _ _ _ (Toml.read?_profileWithKind _) .ios _ hknown,
    (habi.accepts _).mpr ⟨.genericAarch64, _, rfl, hknown, rfl⟩,
    (hkey.accepts _).mpr ⟨.primaryVirtualBases, {}, rfl, rfl, rfl⟩,
    hnokey.refuses (by decide) ?_ {} rfl⟩
  rintro ⟨⟩ <;> decide

end AbiFacts
