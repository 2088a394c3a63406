import AbiFacts.Proofs.Decode.Agreement
import AbiFacts.Proofs.Decode.Strictness
import AbiFacts.Proofs.Json.RoundTrip

/-! # Drafts in both formats

A draft is a document before a format is chosen for it: entries with texts, truth values and
integers, and expectations as a table of these. Written as JSON and as TOML it is decoded alike,
whether it makes a profile or not. Only a value that is no text where a kind or a rule is expected
is refused for a reason of the format.
-/
namespace AbiFacts

/-! ## Drafts -/

inductive Draft.Leaf where
  | text (value : String)
  | boolean (value : Bool)
  | integer (value : Int64)

structure Draft.Table where
  entries : List (String × Draft.Leaf)
  nodup : (keys entries).Nodup

/-- An entry on the top level. Only expectations may be a table. -/
inductive Draft.Entry where
  | leaf (key : String) (value : Draft.Leaf)
  | expect (table : Draft.Table)

def Draft.Entry.key : Draft.Entry → String
  | leaf key _ => key
  | expect _ => "expect"

/-- Entries under distinct keys. -/
structure Draft where
  entries : List Draft.Entry
  nodup : (entries.map Draft.Entry.key).Nodup

namespace Draft

/-! ## As JSON -/

def Leaf.toJson : Leaf → Json
  | text value => .string value
  | boolean value => .boolean value
  | integer value => .number (.ofInt value.toInt)

def Table.toJson (table : Table) : Json :=
  .object (table.entries.map fun entry => (entry.1, entry.2.toJson))

def Entry.toJson : Entry → Json
  | leaf _ value => value.toJson
  | expect table => table.toJson

def toJson (d : Draft) : Json :=
  .object (d.entries.map fun entry => (entry.key, entry.toJson))

theorem Leaf.isIntegral_toJson (leaf : Leaf) : Json.isIntegral leaf.toJson := by
  cases leaf <;> exact trivial

theorem Entry.isIntegral_toJson (entry : Entry) : Json.isIntegral entry.toJson := by
  cases entry with
  | leaf key value => exact value.isIntegral_toJson
  | expect table =>
    refine Json.entriesAreIntegral_iff.mpr fun entry hentry => ?_
    obtain ⟨pin, _, rfl⟩ := List.mem_map.mp hentry
    exact pin.2.isIntegral_toJson

theorem isIntegral_toJson (d : Draft) : Json.isIntegral d.toJson := by
  refine Json.entriesAreIntegral_iff.mpr fun entry hentry => ?_
  obtain ⟨given, _, rfl⟩ := List.mem_map.mp hentry
  exact given.isIntegral_toJson

/-! ## As TOML -/

def Leaf.toValue : Leaf → Toml.Value
  | text value => .string value
  | boolean value => .boolean value
  | integer value => .integer value.toInt

def Table.toTable (table : Table) : Toml.Table :=
  table.entries.map fun entry => (entry.1, entry.2.toValue)

def Entry.toValue : Entry → Toml.Value
  | leaf _ value => value.toValue
  | expect table => .table table.toTable

def toTable (d : Draft) : Toml.Table :=
  d.entries.map fun entry => (entry.key, entry.toValue)

/-- The text of a draft, with the expectations in braces on the line of their key. -/
def toToml (d : Draft) : String :=
  Toml.Document.write ⟨d.toTable, []⟩

theorem Leaf.isLeaf_toValue (leaf : Leaf) : leaf.toValue.IsLeaf := by
  cases leaf with
  | text value | boolean value => exact trivial
  | integer value => exact ⟨value.minValue_le_toInt, value.toInt_le⟩

theorem Entry.isFlat_toValue (entry : Entry) : entry.toValue.IsFlat := by
  cases entry with
  | leaf key value => exact .leaf value.isLeaf_toValue
  | expect table =>
    refine .table (fun entry hentry => ?_) ?_
    · obtain ⟨pin, _, rfl⟩ := List.mem_map.mp hentry
      exact pin.2.isLeaf_toValue
    · rw [Table.toTable, keys_map]
      exact table.nodup

theorem read?_toToml (d : Draft) : Toml.read? d.toToml = some d.toTable := by
  refine Toml.read?_write_flatLines ?_ fun entry hentry => ?_
  · rw [keys, toTable, List.map_map]
    exact d.nodup
  · obtain ⟨given, _, rfl⟩ := List.mem_map.mp hentry
    exact given.isFlat_toValue

/-! ## Leaves in both formats -/

open Decode Json

namespace Leaf

def IsText (leaf : Leaf) : Prop := ∃ value, leaf = text value

def found : Leaf → Found
  | text value => .string value
  | boolean value => .boolean value
  | integer value => .integer value.toInt

theorem found_ofInt (value : Int64) :
    (Number.ofInt value.toInt).found = .ok (.integer value.toInt) := by
  have hleast := value.minValue_le_toInt
  have hgreatest := value.toInt_le
  rw [Number.ofInt, Number.found]
  by_cases hsign : value.toInt < 0
  · have habs : -(value.toInt.natAbs : Int) = value.toInt := by omega
    have hzero : value.toInt.natAbs ≠ 0 := by omega
    rw [Int64.toInt_minValue] at hleast
    simp only [hsign, habs, hzero, hleast, Int64.toInt_minValue, decide_true, Bool.not_true,
      Bool.false_and, Bool.false_eq_true, if_false, Bool.and_self, ne_eq, not_false_eq_true, if_true]
  · have habs : (value.toInt.natAbs : Int) = value.toInt := by omega
    have hsize : value.toInt.natAbs < UInt64.size := by
      simp only [Int64.toInt_maxValue] at hgreatest
      simp only [UInt64.size]
      omega
    simp [hsign, habs, hsize]

variable {strict : Prop} (leaf : Leaf)

theorem found_toJson : (Scan.ofJson leaf.toJson).found = .ok leaf.found := by
  cases leaf with
  | text value | boolean value => rfl
  | integer value => exact found_ofInt value

theorem misfit_agree {α β : Type} {related : α → β → Prop} (wanted : Wanted) :
    Agree strict related ((Scan.ofJson leaf.toJson).misfit wanted) (leaf.toValue.misfit wanted) := by
  have hfound : leaf.toValue.found = leaf.found := by cases leaf <;> rfl
  rw [Scan.misfit, found_toJson, Toml.Value.misfit, hfound]
  exact .misfit _

theorem text_agree :
    Agree strict Eq (Format.text (Scan.ofJson leaf.toJson)) (Format.text leaf.toValue) := by
  cases leaf with
  | text value => exact .ok rfl
  | boolean value => exact misfit_agree (boolean value) .text
  | integer value => exact misfit_agree (integer value) .text

theorem boolean_agree :
    Agree strict Eq (Format.boolean (Scan.ofJson leaf.toJson)) (Format.boolean leaf.toValue) := by
  cases leaf with
  | text value => exact misfit_agree (text value) .boolean
  | boolean value => exact .ok rfl
  | integer value => exact misfit_agree (integer value) .boolean

/-- A leaf that is no text names nothing, in JSON by its grammar. -/
theorem choice_agree {α : Type} [Documented α] (h : strict → leaf.IsText) :
    Agree strict Eq (Format.choice (Scan.ofJson leaf.toJson) : Except Failure α)
      (Format.choice leaf.toValue) := by
  cases leaf with
  | text value => exact agree_named value
  | boolean value | integer value =>
    refine .error fun hstrict => ?_
    obtain ⟨_, ⟨⟩⟩ := h hstrict

theorem expectations_agree (room other : Nat) :
    Agree strict Eq (expectations room (Scan.ofJson leaf.toJson))
      (expectations other leaf.toValue) := by
  have hentries : Agree strict (fun _ _ => False)
      (Format.entries .expectations (Scan.ofJson leaf.toJson))
      (Format.entries .expectations leaf.toValue) := by
    cases leaf with
    | text value => exact misfit_agree (text value) .expectations
    | boolean value => exact misfit_agree (boolean value) .expectations
    | integer value => exact misfit_agree (integer value) .expectations
  exact hentries.bind fun _ _ => False.elim

theorem isNull_toJson : Format.isNull (Scan.ofJson leaf.toJson) = false := by
  cases leaf <;> rfl

theorem keep_toJson (room : Nat) : Format.keep room (Scan.ofJson leaf.toJson) = .ok () := by
  cases leaf with
  | text value | boolean value => rfl
  | integer value =>
    have hsound : (Scan.ofJson (integer value).toJson).isSound room = true := by
      rw [toJson, Scan.ofJson, Scan.isSound, found_ofInt]
      rfl
    exact if_pos hsound

end Leaf

/-! ## Drafts in both formats -/

/-- Every value that stands where a kind or a rule is expected is a text. -/
structure NamesAreTexts (d : Draft) : Prop where
  abi : ∀ value, .leaf "abi" value ∈ d.entries → value.IsText
  tailPadding : ∀ table, .expect table ∈ d.entries →
    ∀ value, (tailPaddingKey, value) ∈ table.entries → value.IsText

theorem Table.pinsAlike {strict : Prop} {table : Table}
    (h : strict → ∀ value, (tailPaddingKey, value) ∈ table.entries → value.IsText) (room other : Nat)
    {entry : String × Leaf} (hentry : entry ∈ table.entries) :
    PinsAlike strict room other (entry.1, Scan.ofJson entry.2.toJson)
      (entry.1, entry.2.toValue) where
  key := rfl
  kept := entry.2.keep_toJson room
  kept' := rfl
  rule := by
    intro hkey
    refine agree_optional entry.2.isNull_toJson rfl (entry.2.choice_agree fun hstrict => ?_)
    exact h hstrict entry.2 (hkey ▸ hentry)
  boolean := entry.2.boolean_agree

theorem Table.expectations_agree {strict : Prop} {table : Table}
    (h : strict → ∀ value, (tailPaddingKey, value) ∈ table.entries → value.IsText)
    (room other : Nat) :
    Agree strict Eq (expectations room (Scan.ofJson table.toJson))
      (expectations other (.table table.toTable : Toml.Value)) := by
  rw [toJson, Scan.ofJson_object, List.map_map]
  refine Decode.expectations_agree ?_
  rw [toTable, List.forall₂_map_left_iff, List.forall₂_map_right_iff, List.forall₂_same]
  exact fun entry hentry => pinsAlike h _ _ hentry

theorem fieldsAlike {d : Draft} (room other : Nat) {entry : Entry} (hentry : entry ∈ d.entries) :
    FieldsAlike d.NamesAreTexts room other (entry.key, Scan.ofJson entry.toJson)
      (entry.key, entry.toValue) where
  key := rfl
  decode := by
    intro field hfield
    cases entry with
    | leaf key value =>
      cases field with
      | name => exact value.text_agree
      | abi =>
        obtain rfl : key = "abi" := hfield
        have hchoice : Agree d.NamesAreTexts Eq
            (Format.choice (Scan.ofJson value.toJson) : Except Failure Kind)
            (Format.choice value.toValue) :=
          value.choice_agree fun hnames => hnames.abi value hentry
        exact hchoice
      | description => exact agree_optional value.isNull_toJson rfl value.text_agree
      | expect => exact agree_optional value.isNull_toJson rfl (value.expectations_agree _ _)
    | expect table =>
      obtain rfl : field = .expect := Named.name_injective _ _ hfield.symm
      refine agree_optional rfl rfl (Table.expectations_agree ?_ _ _)
      exact fun hstrict => hstrict.tailPadding table hentry

/-- Texts that spell a draft in the two formats are decoded alike. -/
theorem profile?_agree {d : Draft} {json toml : String}
    (hjson : Json.scan json = (Scan.ofJson d.toJson, false))
    (htoml : Toml.read? toml = some d.toTable) :
    Agree d.NamesAreTexts Eq (Json.profile? json) (Toml.profile? toml) := by
  rw [profile?_of_scan hjson, toJson, Scan.ofJson_object, List.map_map, profile_ofTable,
    Toml.profile?, Toml.decode_of_read? htoml]
  refine profileOfEntries_agree ?_
  rw [toTable, List.forall₂_map_left_iff, List.forall₂_map_right_iff, List.forall₂_same]
  exact fun entry hentry => fieldsAlike _ _ hentry

/-- Every draft is spelled by its texts in both formats, and wherever a JSON and a TOML text spell
it, they are decoded to the same profile or not at all. Where kinds and rules are given by texts,
neither is decoded only if both are refused for the same misfit. -/
theorem formats_agree_on_drafts (d : Draft) :
    (Json.scan d.toJson.compact = (Scan.ofJson d.toJson, false) ∧
      Json.scan d.toJson.pretty = (Scan.ofJson d.toJson, false) ∧
      Toml.read? d.toToml = some d.toTable) ∧
    ∀ json toml, Json.scan json = (Scan.ofJson d.toJson, false) →
      Toml.read? toml = some d.toTable →
      (∀ p, Json.profile? json = .ok p ↔ Toml.profile? toml = .ok p) ∧
      (d.NamesAreTexts → ∀ failure, Json.profile? json = .error failure →
        ∃ misfit, failure = .data misfit ∧ Toml.profile? toml = .error (.data misfit)) := by
  refine ⟨⟨?_, ?_, d.read?_toToml⟩, fun json toml hjson htoml => ?_⟩
  · exact scan_write Layout.compact_isBlank d.isIntegral_toJson
  · exact scan_write Layout.pretty_isBlank d.isIntegral_toJson
  · have hagree := profile?_agree hjson htoml
    exact ⟨hagree.ok_iff, fun hnames failure => hagree.same_misfit hnames⟩

def kindFirst : Draft where
  entries := [.leaf "abi" (.text "ios"), .leaf "name" (.text "demo")]
  nodup := by decide

/-- A draft with a number for a truth value, and without a name. -/
def withIntegerPin : Draft where
  entries := [.leaf "abi" (.text "ios"), .expect ⟨[("microsoft", .integer 1)], by decide⟩]
  nodup := by decide

theorem namesAreTexts_withIntegerPin : withIntegerPin.NamesAreTexts := by
  constructor
  · intro value hvalue
    simp only [withIntegerPin, List.mem_cons, Entry.leaf.injEq, true_and, reduceCtorEq,
      List.not_mem_nil, or_false] at hvalue
    exact ⟨_, hvalue⟩
  · intro table htable value hvalue
    simp only [withIntegerPin, List.mem_cons, Entry.expect.injEq, reduceCtorEq, false_or,
      List.not_mem_nil, or_false] at htable
    subst htable
    simp [tailPaddingKey] at hvalue

/-- One draft is decoded in both formats; in the other one the number is met, in either format,
before the name is missed. -/
theorem drafts_decoded_and_refused_in_both :
    (Json.profile? kindFirst.toJson.pretty = .ok ⟨"demo", .ios, none, none⟩ ∧
      Toml.profile? kindFirst.toToml = .ok ⟨"demo", .ios, none, none⟩) ∧
    Json.profile? withIntegerPin.toJson.compact =
        .error (.data (.invalidType (.integer 1) .boolean)) ∧
      Toml.profile? withIntegerPin.toToml =
        .error (.data (.invalidType (.integer 1) .boolean)) := by
  constructor
  · obtain ⟨⟨_, hscan, hread⟩, hagree⟩ := formats_agree_on_drafts kindFirst
    have hjson : Json.profile? kindFirst.toJson.pretty = .ok ⟨"demo", .ios, none, none⟩ := by
      rw [profile?_of_scan hscan]
      rfl
    exact ⟨hjson, ((hagree _ _ hscan hread).1 _).mp hjson⟩
  · obtain ⟨⟨hscan, _, hread⟩, hagree⟩ := formats_agree_on_drafts withIntegerPin
    have hjson : Json.profile? withIntegerPin.toJson.compact =
        .error (.data (.invalidType (.integer 1) .boolean)) := by
      rw [profile?_of_scan hscan]
      rfl
    obtain ⟨_, ⟨⟩, htoml⟩ := (hagree _ _ hscan hread).2 namesAreTexts_withIntegerPin _ hjson
    exact ⟨hjson, htoml⟩

end Draft
end AbiFacts
