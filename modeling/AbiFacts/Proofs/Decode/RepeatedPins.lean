import AbiFacts.Proofs.Decode.Strictness
import AbiFacts.Proofs.Json.Scans

/-! # Repeated pins

A JSON object may pin a fact more than once. Every pin must be one, also where a later pin of the
same fact overrides it, and the last one counts. The tail padding may not be repeated. So the
overridden pins can be left out of the object (`last_pin_of_a_fact_counts`).
-/
namespace AbiFacts.Decode

variable {ν : Type}

/-! ## Last values -/

def lastValue (table : List (String × ν)) (key : String) : Option ν := table.reverse.lookup key

@[simp] theorem lastValue_nil (key : String) : lastValue ([] : List (String × ν)) key = none := rfl

theorem lastValue_cons (entry : String × ν) (table : List (String × ν)) (key : String) :
    lastValue (entry :: table) key =
      (lastValue table key).or (if key = entry.1 then some entry.2 else none) := by
  rw [lastValue, List.reverse_cons, List.lookup_append, List.lookup_cons, List.lookup_nil]
  by_cases h : key = entry.1
  · simp [h, lastValue]
  · have hne : (key == entry.1) = false := by simp [h]
    rw [hne, if_neg h]
    rfl

theorem isSome_lastValue {table : List (String × ν)} {key : String} :
    (lastValue table key).isSome = true ↔ key ∈ keys table := by
  induction table with
  | nil => simp
  | cons entry table ih =>
    rw [lastValue_cons, keys_cons, List.mem_cons, ← ih]
    by_cases h : key = entry.1 <;> simp [h]

theorem lastValue_withoutTailPadding {key : String} (h : key ≠ tailPaddingKey)
    (table : List (String × ν)) :
    lastValue (withoutTailPadding table) key = lastValue table key := by
  induction table with
  | nil => rfl
  | cons entry table ih =>
    by_cases htail : entry.1 = tailPaddingKey
    · have hkey : key ≠ entry.1 := htail ▸ h
      rw [withoutTailPadding, List.filter_cons_of_neg (by simp [htail]), lastValue_cons,
        if_neg hkey, Option.or_none]
      exact ih
    · rw [withoutTailPadding, List.filter_cons_of_pos (by simp [htail]), lastValue_cons,
        lastValue_cons, ← ih]
      rfl

/-- A later pin of a fact overrides an earlier one. -/
theorem setPin_setPin (property : Property) (earlier later : Option Bool) (e : Expectations) :
    (e.setPin property earlier).setPin property later = e.setPin property later := by
  ext other : 1
  · by_cases h : other = property
    · simp [h]
    · simp [Expectations.setPin_of_ne h]
  · rfl

/-- Pins that are put one after another leave each fact as it was pinned last. -/
theorem pinned_foldl_addPin (pins : List (Property × Bool)) (e : Expectations)
    (property : Property) :
    (pins.foldl addPin e).pinned property =
      (pins.reverse.lookup property).or (e.pinned property) := by
  induction pins generalizing e with
  | nil => rfl
  | cons pin pins ih =>
    rw [List.foldl_cons, ih, List.reverse_cons, List.lookup_append, Option.or_assoc]
    congr 1
    rw [List.lookup_cons, List.lookup_nil]
    by_cases h : property = pin.1
    · simp [addPin, h]
    · have hne : (property == pin.1) = false := by simp [h]
      rw [hne, addPin, Expectations.setPin_of_ne h]
      rfl

/-! ## Overridden pins -/

/-- The table without the pins that a later entry overrides. -/
def withoutOverridden : List (String × ν) → List (String × ν)
  | [] => []
  | entry :: table =>
    if entry.1 ∈ Named.names Property ∧ entry.1 ∈ keys table then withoutOverridden table
    else entry :: withoutOverridden table

theorem withoutOverridden_sublist (table : List (String × ν)) :
    (withoutOverridden table).Sublist table := by
  induction table with
  | nil => exact .slnil
  | cons entry table ih =>
    rw [withoutOverridden]
    split
    · exact ih.cons entry
    · exact ih.cons_cons entry

theorem lastValue_withoutOverridden (table : List (String × ν)) (key : String) :
    lastValue (withoutOverridden table) key = lastValue table key := by
  induction table with
  | nil => rfl
  | cons entry table ih =>
    rw [withoutOverridden]
    split
    case isTrue h =>
      -- the entry that is left out is overridden by one that stays
      rw [lastValue_cons, ih]
      by_cases hkey : key = entry.1
      · have hlater : (lastValue table key).isSome = true := isSome_lastValue.mpr (hkey ▸ h.2)
        rw [Option.or_of_isSome hlater]
      · rw [if_neg hkey, Option.or_none]
    case isFalse => rw [lastValue_cons, lastValue_cons, ih]

theorem tailPaddingKey_not_property : tailPaddingKey ∉ Named.names Property := by decide

/-- No tail padding is left out. -/
theorem filter_tailPadding_withoutOverridden (table : List (String × ν)) :
    (withoutOverridden table).filter (fun entry => entry.1 == tailPaddingKey) =
      table.filter fun entry => entry.1 == tailPaddingKey := by
  induction table with
  | nil => rfl
  | cons entry table ih =>
    rw [withoutOverridden]
    by_cases htail : entry.1 = tailPaddingKey
    · have hstays : ¬ (entry.1 ∈ Named.names Property ∧ entry.1 ∈ keys table) := fun h =>
        tailPaddingKey_not_property (htail ▸ h.1)
      rw [if_neg hstays, List.filter_cons_of_pos (by simp [htail]),
        List.filter_cons_of_pos (by simp [htail]), ih]
    · rw [List.filter_cons_of_neg (by simp [htail]), ← ih]
      split
      · rfl
      · rw [List.filter_cons_of_neg (by simp [htail])]

theorem mem_tailPadding_withoutOverridden {table : List (String × ν)} {value : ν} :
    (tailPaddingKey, value) ∈ withoutOverridden table ↔ (tailPaddingKey, value) ∈ table := by
  have h := congrArg ((tailPaddingKey, value) ∈ ·) (filter_tailPadding_withoutOverridden table)
  simpa using h

/-! ## Decoding -/

variable [Format ν] [TreeFormat ν]

open TreeFormat

theorem lastValue_pins (pins : List (Property × Bool)) (property : Property) :
    lastValue (pins.map (pinEntry : _ → String × ν)) property.key =
      (pins.reverse.lookup property).map ofBoolean := by
  induction pins with
  | nil => rfl
  | cons pin pins ih =>
    have hkey : property.key = pin.1.key ↔ property = pin.1 :=
      ⟨Named.name_injective property pin.1, congrArg _⟩
    rw [List.map_cons, lastValue_cons, ih, List.reverse_cons, List.lookup_append, List.lookup_cons,
      List.lookup_nil]
    by_cases h : property = pin.1
    · simp [h, pinEntry]
    · have hne : (property == pin.1) = false := by simp [h]
      simp [hne, pinEntry, hkey, h]

/-- A fact is pinned to the last value under its key, and only if there is one. -/
theorem lastValue_eq_pinned {room : Nat} {table : List (String × ν)} {e : Expectations}
    (h : expectationsOfEntries room (entriesOf table) = .ok e) (property : Property) :
    lastValue table property.key = (e.pinned property).map ofBoolean := by
  rcases expectationsOfEntries_passes.mp h with ⟨rule, pins, _, _, hpins, rfl⟩
  rw [← lastValue_withoutTailPadding (key_ne_tailPaddingKey property), hpins, lastValue_pins,
    pinned_foldl_addPin]
  simp

theorem exists_expectationsOfEntries {room : Nat} {table : List (String × ν)} :
    (∃ e, expectationsOfEntries room (entriesOf table) = .ok e) ↔
      (keys table).count tailPaddingKey ≤ 1 ∧ IsExpectations table := by
  simp only [expectationsOfEntries_passes]
  constructor
  · rintro ⟨_, rule, pins, honce, hrule, hpins, rfl⟩
    exact ⟨honce, fun key hkey => known_of_passes hpins hkey, fun _ _ => isBoolean_of_passes hpins,
      fun value => hrule.understood honce⟩
  · rintro ⟨honce, h⟩
    rcases exists_passes h.known h.isBoolean with ⟨pins, hpins⟩
    rcases exists_holds h.isRule with ⟨rule, hrule⟩
    exact ⟨_, rule, pins, honce, hrule, hpins, rfl⟩

/-- Overridden pins may be left out. -/
theorem expectationsOfEntries_withoutOverridden {room : Nat} {table : List (String × ν)}
    {e : Expectations} (h : expectationsOfEntries room (entriesOf table) = .ok e) :
    expectationsOfEntries room (entriesOf (withoutOverridden table)) = .ok e := by
  have hkept := (withoutOverridden_sublist table).subset
  have hkeys := (withoutOverridden_sublist table).map Prod.fst
  rcases expectationsOfEntries_passes.mp h with ⟨rule, pins, honce, hrule, hpins, rfl⟩
  have hknown : ∀ key ∈ keys (withoutOverridden table),
      key = tailPaddingKey ∨ ∃ property : Property, key = property.key :=
    fun key hkey => known_of_passes hpins (hkeys.subset hkey)
  rcases exists_passes hknown fun _ _ hmem => isBoolean_of_passes hpins (hkept hmem)
    with ⟨others, hothers⟩
  have hless : expectationsOfEntries room (entriesOf (withoutOverridden table)) =
      .ok (others.foldl addPin { tailPadding := rule }) := by
    refine expectationsOfEntries_passes.mpr ⟨rule, others, ?_, ?_, hothers, rfl⟩
    · exact (hkeys.count_le tailPaddingKey).trans honce
    · exact hrule.of_mem_iff fun _ => mem_tailPadding_withoutOverridden.symm
  rw [hless, Except.ok.injEq]
  ext property : 1
  · apply Option.map_injective (fun _ _ => ofBoolean_injective (ν := ν))
    rw [← lastValue_eq_pinned hless, ← lastValue_eq_pinned h, lastValue_withoutOverridden]
  · rw [foldl_addPin_tailPadding, foldl_addPin_tailPadding]

end AbiFacts.Decode

namespace AbiFacts

open Decode

namespace Json

theorem expectations?_of_scan {text : String} {value : Scan} (h : scan text = (value, false)) :
    expectations? text = expectations maxNesting value :=
  decode_of_scan h

/-- An object is decoded only if it is closed and each of its keys is a text. -/
theorem isTable_of_expectations? {text : String} {entries : List (Option String × Scan)}
    {ending : Ending} (h : scan text = (.object entries ending, false)) {e : Expectations}
    (he : expectations? text = .ok e) :
    ∃ table, Scan.object entries ending = Scan.ofTable table := by
  rw [expectations?_of_scan h] at he
  rcases expectations_eq_ok.mp he with ⟨table, htable, _⟩
  exact ⟨table, htable⟩

end Json

namespace Decode

/-- What an object with repeated keys is decoded to: the last pin of each fact that has one, and its
one tail padding. Leaving out the pins that are overridden gives the same. -/
structure TakesLastPins (table : List (String × Json.Scan)) (e : Expectations) : Prop where
  pinned : ∀ property : Property,
    lastValue table property.key = (e.pinned property).map Json.Scan.boolean
  tailPadding : Holds (Format.choice · = .ok ·) table tailPaddingKey e.tailPadding
  object : expectations Json.maxNesting (Json.Scan.ofTable (withoutOverridden table)) = .ok e
  text : ∀ text, Json.scan text = (Json.Scan.ofTable (withoutOverridden table), false) →
    Json.expectations? text = .ok e

theorem takesLastPins {table : List (String × Json.Scan)} {e : Expectations}
    (h : expectationsOfEntries (Json.maxNesting - 1) (entriesOf table) = .ok e) :
    TakesLastPins table e := by
  have hobject : expectations Json.maxNesting (Json.Scan.ofTable (withoutOverridden table)) =
      .ok e :=
    (expectations_ofTable _ _).trans (expectationsOfEntries_withoutOverridden h)
  refine ⟨lastValue_eq_pinned h, ?_, hobject, fun text htext => ?_⟩
  · rcases expectationsOfEntries_passes.mp h with ⟨rule, pins, _, hrule, _, rfl⟩
    rw [foldl_addPin_tailPadding]
    exact hrule
  · rw [Json.expectations?_of_scan htext, hobject]

/-- An object makes expectations if all its entries are pins but for one tail padding at most, which
may be null; pins that are overridden must be pins as well. The last pin of a fact counts. -/
theorem last_pin_of_a_fact_counts :
    (∀ text table, Json.scan text = (Json.Scan.ofTable table, false) →
      ((∃ e, Json.expectations? text = .ok e) ↔
        (keys table).count tailPaddingKey ≤ 1 ∧ IsExpectations table) ∧
      ∀ e, Json.expectations? text = .ok e → TakesLastPins table e) ∧
    ∀ text entries ending, Json.scan text = (.object entries ending, false) →
      ∀ e, Json.expectations? text = .ok e →
        ∃ table, Json.Scan.object entries ending = Json.Scan.ofTable table := by
  refine ⟨fun text table h => ?_, fun text entries ending h e => Json.isTable_of_expectations? h⟩
  have hdecode : Json.expectations? text =
      expectationsOfEntries (Json.maxNesting - 1) (entriesOf table) :=
    (Json.expectations?_of_scan h).trans (expectations_ofTable _ _)
  rw [hdecode]
  exact ⟨exists_expectationsOfEntries, fun e => takesLastPins⟩

/-- An object in which a fact is pinned twice, with a tail padding in between. -/
def pinnedTwice : Json :=
  .object [("microsoft", .boolean true), ("tail-padding", .null), ("microsoft", .boolean false)]

/-- The second pin counts, and the first may be left out. -/
theorem pinned_twice_takes_the_second :
    Json.expectations? pinnedTwice.compact = .ok (Expectations.setPin .microsoft (some false) {}) ∧
    Json.expectations? (Json.compact
      (.object [("tail-padding", .null), ("microsoft", .boolean false)])) =
        .ok (Expectations.setPin .microsoft (some false) {}) := by
  have hscan : Json.scan pinnedTwice.compact = (Json.Scan.ofTable [("microsoft", .boolean true),
      ("tail-padding", .null), ("microsoft", .boolean false)], false) :=
    Json.scan_write Json.Layout.compact_isBlank ⟨trivial, trivial, trivial, trivial⟩
  have hless : Json.scan (Json.compact
      (.object [("tail-padding", .null), ("microsoft", .boolean false)])) =
        (Json.Scan.ofTable [("tail-padding", .null), ("microsoft", .boolean false)], false) :=
    Json.scan_write Json.Layout.compact_isBlank ⟨trivial, trivial, trivial⟩
  have hdecode : Json.expectations? pinnedTwice.compact =
      .ok (Expectations.setPin .microsoft (some false) {}) := by
    rw [Json.expectations?_of_scan hscan]
    exact congrArg Except.ok (setPin_setPin .microsoft (some true) (some false) {})
  exact ⟨hdecode, ((last_pin_of_a_fact_counts.1 _ _ hscan).2 _ hdecode).text _ hless⟩

end Decode
end AbiFacts
