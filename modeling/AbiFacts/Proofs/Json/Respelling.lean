import AbiFacts.Proofs.Json.Arrays

/-! # Spellings of a record

A record has two forms, an array and an object, and each name of a finite type in it has two
spellings, a string and an object of one entry. None of this matters for what is decoded, and what
is written has one form and one spelling (`positional_and_keyed_agree`).
-/
namespace AbiFacts

open Decode

namespace Json
namespace Scan

/-! ## Names -/

/-- A name as it was, or as an object in the place of a string. -/
inductive NameRespelled : Scan → Scan → Prop where
  | same (scan : Scan) : NameRespelled scan scan
  | object (name : String) :
      NameRespelled (.string (some name)) (.object [(some name, .null)] .closed)

theorem NameRespelled.choice_eq {a b : Scan} (h : NameRespelled a b) {α : Type} [Documented α] :
    (choice a : Except Failure α) = choice b := by
  cases h with
  | same => rfl
  | object name =>
    simp only [choice, Scan.unit]
    cases (named name : Except Failure α) <;> rfl

theorem NameRespelled.optional_eq {a b : Scan} (h : NameRespelled a b) {α : Type} [Documented α] :
    Decode.optional (Format.choice : Scan → Except Failure α) a =
      Decode.optional Format.choice b := by
  have hnull : Format.isNull a = Format.isNull b := by cases h <;> rfl
  have hchoice : (Format.choice a : Except Failure α) = Format.choice b := h.choice_eq
  rw [Decode.optional, Decode.optional, hnull, hchoice]

/-! ## Tables -/

/-- Tables with the same keys and with values that are respelled as their keys admit it. -/
def TableRespelled (respelled : String → Scan → Scan → Prop) :
    List (String × Scan) → List (String × Scan) → Prop :=
  List.Forall₂ fun a b => a.1 = b.1 ∧ respelled a.1 a.2 b.2

def PinRespelled (key : String) (a b : Scan) : Prop :=
  if key = tailPaddingKey then NameRespelled a b else a = b

theorem separate_respelled {table others : List (String × Scan)}
    (h : TableRespelled PinRespelled table others) (room : Nat)
    (tail : Option (Option TailPadding)) :
    separate room tail (entriesOf table) = separate room tail (entriesOf others) := by
  induction h generalizing tail with
  | nil => rfl
  | @cons a b table others hhead _ ih =>
    rcases a with ⟨key, value⟩
    rcases b with ⟨_, other⟩
    rcases hhead with ⟨rfl, hvalue⟩
    dsimp only [PinRespelled] at hvalue
    rw [entriesOf_cons, entriesOf_cons, separate, separate,
      Expectations.Field.documentName_tailPadding]
    by_cases hkey : key = tailPaddingKey
    · rw [if_pos hkey] at hvalue
      rw [if_pos hkey, if_pos hkey, hvalue.optional_eq, funext fun rule => ih (some rule)]
    · rw [if_neg hkey] at hvalue
      rw [if_neg hkey, if_neg hkey, ih tail, hvalue]

inductive ExpectRespelled : Scan → Scan → Prop where
  | same (scan : Scan) : ExpectRespelled scan scan
  | table {table others : List (String × Scan)} (h : TableRespelled PinRespelled table others) :
      ExpectRespelled (.ofTable table) (.ofTable others)

theorem ExpectRespelled.optional_eq {a b : Scan} (h : ExpectRespelled a b) (room : Nat) :
    Decode.optional (expectations room) a = Decode.optional (expectations room) b := by
  cases h with
  | same => rfl
  | @table table others h =>
    -- Neither table stands for an absent one, so both are read.
    have hread : ∀ table, expectations room (Scan.ofTable table) =
        expectationsOfEntries (room - 1) (entriesOf table) :=
      fun table => expectations_ofTable room table
    have htables : expectations room (Scan.ofTable table) =
        expectations room (Scan.ofTable others) := by
      rw [hread, hread, expectationsOfEntries, expectationsOfEntries,
        separate_respelled h]
    have hnull : ∀ table, Format.isNull (Scan.ofTable table) = false := fun _ => rfl
    rw [Decode.optional, Decode.optional, hnull, hnull, htables]

/-! ## Records -/

def FieldRespelled (key : String) (a b : Scan) : Prop :=
  if key = "abi" then NameRespelled a b
  else if key = "expect" then ExpectRespelled a b
  else a = b

def FactRespelled (key : String) (a b : Scan) : Prop :=
  if key = "kind" ∨ key = tailPaddingKey then NameRespelled a b else a = b

theorem FieldRespelled.alike {key : String} {a b : Scan} (h : FieldRespelled key a b) :
    profileRecord.Alike key a b := by
  constructor
  · rintro field rfl
    cases field with
    | name | description =>
      have hsame : a = b := by simpa [FieldRespelled, Named.name] using h
      rw [hsame]
    | abi =>
      have hname : NameRespelled a b := by simpa [FieldRespelled, Named.name] using h
      exact hname.choice_eq
    | expect =>
      have hexpect : ExpectRespelled a b := by simpa [FieldRespelled, Named.name] using h
      exact hexpect.optional_eq _
  · intro _
    rfl

theorem FactRespelled.alike {key : String} {a b : Scan} (h : FactRespelled key a b) :
    snapshotRecord.Alike key a b := by
  have hother : ∀ {key}, FactRespelled key a b → key ≠ Named.name Snapshot.Field.kind →
      key ≠ Named.name Snapshot.Field.tailPadding → a = b := by
    intro key h hkind htail
    have hno : ¬ (key = "kind" ∨ key = tailPaddingKey) := not_or.mpr ⟨hkind, htail⟩
    rwa [FactRespelled, if_neg hno] at h
  constructor
  · rintro field rfl
    cases field with
    | kind | tailPadding =>
      have hname : NameRespelled a b := by
        simpa [FactRespelled, Named.name, tailPaddingKey] using h
      exact hname.choice_eq
    | value property => rw [hother h (by simp [name_eq_name]) (by simp [name_eq_name])]
  · intro hfind
    have hno := Named.find?_eq_none_iff.mp hfind
    rw [hother h (hno .kind) (hno .tailPadding)]

/-- A record with names respelled, as an array or as an object. What stands in an array past the last
field is left open: no such array is decoded. -/
inductive RecordRespelled (φ : Type) [Named φ] (respelled : String → Scan → Scan → Prop) :
    Scan → Scan → Prop where
  | array {items others : List Scan} (hlength : items.length = others.length)
      (h : TableRespelled respelled ((Named.names φ).zip items) ((Named.names φ).zip others)) :
      RecordRespelled φ respelled (.array items true) (.array others true)
  | object {table others : List (String × Scan)} (h : TableRespelled respelled table others) :
      RecordRespelled φ respelled (.ofTable table) (.ofTable others)

end Scan

open Scan

/-- Respelling does not change what is read. -/
theorem ReadByFilling.read_eq {α σ φ : Type} [Named φ] {step : σ → Entry Scan → Except Failure σ}
    {record : Record σ φ step} {read : Scan → Except Failure α} {start : σ}
    {finish : σ → Except Failure α} {wanted : Wanted} {least size : Nat}
    (h : ReadByFilling record read start finish wanted least size)
    (hrepeated : record.NamesRepeated) {respelled : String → Scan → Scan → Prop}
    (halike : ∀ {key a b}, respelled key a b → record.Alike key a b) {a b : Scan}
    (hrespelled : RecordRespelled φ respelled a b) : read a = read b := by
  have hfold : ∀ {table others}, TableRespelled respelled table others →
      (entriesOf table).foldlM step start = (entriesOf others).foldlM step start :=
    fun htables => Record.foldlM_congr hrepeated
      (htables.imp fun _ _ hentry => ⟨hentry.1, halike hentry.2⟩) start
  cases hrespelled with
  | array hlength htables => rw [h.array, h.array, h.fillItems_eq, h.fillItems_eq, hfold htables,
      hlength]
  | object htables => rw [h.table, h.table, hfold htables]

/-- The same may follow both texts. -/
theorem ReadByFilling.decode_eq_decode {α σ φ : Type} [Named φ]
    {step : σ → Entry Scan → Except Failure σ} {record : Record σ φ step}
    {read : Scan → Except Failure α} {start : σ} {finish : σ → Except Failure α} {wanted : Wanted}
    {least size : Nat} (h : ReadByFilling record read start finish wanted least size)
    (hrepeated : record.NamesRepeated) {respelled : String → Scan → Scan → Prop}
    (halike : ∀ {key a b}, respelled key a b → record.Alike key a b) {text other : String}
    {a b : Scan} {trailing : Bool} (htext : scan text = (a, trailing))
    (hother : scan other = (b, trailing)) (hrespelled : RecordRespelled φ respelled a b) :
    decode read text = decode read other := by
  rw [decode_eq htext, decode_eq hother, h.read_eq hrepeated halike hrespelled]

end Json

/-! ## What is written -/

open Json

/-- A profile is written as an object, with its names as strings. -/
structure Profile.WrittenPlainly (p : Profile) : Prop where
  compact : scan p.toJson.compact = (.ofTable p.tableOf, false)
  pretty : scan p.toJson.pretty = (.ofTable p.tableOf, false)
  distinct : (keys (p.tableOf : List (String × Scan))).Nodup
  abi : ("abi", Scan.string (some p.abi.name)) ∈ p.tableOf
  rule : ∀ e rule, p.expect = some e → e.tailPadding = some rule →
    ("expect", Scan.ofTable e.tableOf) ∈ p.tableOf ∧
      (keys (e.tableOf : List (String × Scan))).Nodup ∧
      (tailPaddingKey, Scan.string (some rule.name)) ∈ e.tableOf

theorem Profile.writtenPlainly (p : Profile) : p.WrittenPlainly where
  compact := p.ofJson_toJson ▸ scan_write Layout.compact_isBlank p.isIntegral_toJson
  pretty := p.ofJson_toJson ▸ scan_write Layout.pretty_isBlank p.isIntegral_toJson
  distinct := p.nodup_keys_tableOf
  abi := mem_tableOf.mpr (.inr (.inl ⟨rfl, rfl⟩))
  rule := by
    intro e rule hexpect hrule
    refine ⟨mem_tableOf.mpr (.inr (.inr (.inr ⟨e, hexpect, rfl, rfl⟩))), e.nodup_keys_tableOf, ?_⟩
    exact List.mem_append_right _ (mem_optionalEntry.mpr ⟨rule, hrule, rfl⟩)

structure Snapshot.WrittenPlainly (s : Snapshot) : Prop where
  compact : scan s.toJson.compact = (.ofTable s.tableOf, false)
  pretty : scan s.toJson.pretty = (.ofTable s.tableOf, false)
  distinct : (keys (s.tableOf : List (String × Scan))).Nodup
  kind : ("kind", Scan.string (some s.kind.name)) ∈ s.tableOf
  rule : (tailPaddingKey, Scan.string (some s.tailPadding.name)) ∈ s.tableOf

theorem Snapshot.writtenPlainly (s : Snapshot) : s.WrittenPlainly where
  compact := s.ofJson_toJson ▸ scan_write Layout.compact_isBlank s.isIntegral_toJson
  pretty := s.ofJson_toJson ▸ scan_write Layout.pretty_isBlank s.isIntegral_toJson
  distinct := s.nodup_keys_tableOf
  kind := .head _
  rule := .tail _ (List.mem_append_right _ (.head _))

namespace Json

/-- An array of two to four items is decoded as the profile that the object with these values is
decoded to, or refused as the object is; other arrays are refused for their length or, past it, for
their grammar, if their items decode. So it is for snapshots, with ten items. Spelling a name as an
object makes no difference in either form, and all that is written is an object that spells its
names as strings. -/
theorem positional_and_keyed_agree :
    DecodedByPosition profileRecord profile? .profile 2 4 ∧
    DecodedByPosition snapshotRecord snapshot? .snapshot 10 10 ∧
    (∀ text other a b trailing, scan text = (a, trailing) → scan other = (b, trailing) →
      Scan.RecordRespelled Profile.Field Scan.FieldRespelled a b →
        profile? text = profile? other) ∧
    (∀ text other a b trailing, scan text = (a, trailing) → scan other = (b, trailing) →
      Scan.RecordRespelled Snapshot.Field Scan.FactRespelled a b →
        snapshot? text = snapshot? other) ∧
    (∀ p : Profile, p.WrittenPlainly) ∧ ∀ s : Snapshot, s.WrittenPlainly := by
  refine ⟨profile_readByFilling.decodedByPosition (by decide),
    snapshot_readByFilling.decodedByPosition (Nat.le_refl 10), ?_, ?_,
    Profile.writtenPlainly, Snapshot.writtenPlainly⟩
  · intro text other a b trailing htext hother hrespelled
    exact profile_readByFilling.decode_eq_decode (ProfileFields.namesRepeated _)
      Scan.FieldRespelled.alike htext hother hrespelled
  · intro text other a b trailing htext hother hrespelled
    exact snapshot_readByFilling.decode_eq_decode SnapshotFields.namesRepeated
      Scan.FactRespelled.alike htext hother hrespelled

/-- A profile of two fields as an array and as an object, with its kind in both spellings, and
arrays that are too short and too long. -/
theorem arrays_of_one_two_and_five_items :
    let pair := Json.array [.string "app", .string "ios"]
    profile? pair.compact =
      profile? (Json.object [("name", .string "app"), ("abi", .string "ios")]).compact ∧
    profile? pair.compact =
      profile? (Json.array [.string "app", .object [("ios", .null)]]).compact ∧
    profile? (Json.array [.string "app"]).compact = .error (.data (.invalidLength 1 .profile 4)) ∧
    profile? (Json.array [.string "app", .string "ios", .null, .null, .boolean true]).compact =
      .error .grammar ∧
    snapshot? (Json.array []).compact = .error (.data (.invalidLength 0 .snapshot 10)) := by
  have hscan : ∀ value : Json, isIntegral value →
      scan value.compact = (Scan.ofJson value, false) :=
    fun _ => scan_write Layout.compact_isBlank
  have hpair := hscan (.array [.string "app", .string "ios"]) ⟨trivial, trivial, trivial⟩
  have hkeyed := hscan (.object [("name", .string "app"), ("abi", .string "ios")])
    ⟨trivial, trivial, trivial⟩
  have hobject := hscan (.array [.string "app", .object [("ios", .null)]])
    ⟨trivial, ⟨trivial, trivial⟩, trivial⟩
  have hone := hscan (.array [.string "app"]) ⟨trivial, trivial⟩
  have hfive := hscan (.array [.string "app", .string "ios", .null, .null, .boolean true])
    ⟨trivial, trivial, trivial, trivial, trivial, trivial⟩
  have hnone := hscan (.array []) trivial
  rcases positional_and_keyed_agree with ⟨hprofile, hsnapshot, hrespelled, _⟩
  refine ⟨hprofile.keyed hpair hkeyed (by decide) (by decide),
    hrespelled _ _ _ _ _ hpair hobject (.array rfl ?_), hprofile.short hone (by decide) ?_,
    hprofile.long hfive (by decide) ?_, hsnapshot.short hnone (by decide) ?_⟩
  · exact .cons ⟨rfl, rfl⟩ (.cons ⟨rfl, .object "ios"⟩ .nil)
  · rintro field value (_ | ⟨_, ⟨⟩⟩)
    exact ⟨"app", rfl⟩
  · rintro field value (_ | ⟨_, _ | ⟨_, _ | ⟨_, _ | ⟨_, ⟨⟩⟩⟩⟩⟩) <;> exact ⟨_, rfl⟩
  · rintro field value ⟨⟩

end Json
end AbiFacts
