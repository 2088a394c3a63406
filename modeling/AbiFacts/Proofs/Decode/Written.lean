import AbiFacts.Proofs.Decode.Profiles
import AbiFacts.Proofs.Decode.Snapshots

/-! # Tables of written values

The table that is written for a value has distinct keys and says this value, in every format. So
decoding what has been written gives the value back (`profileOfEntries_tableOf` and its like).
-/
namespace AbiFacts

open Decode TreeFormat

variable {ν : Type} [Format ν] [TreeFormat ν]

theorem choice_name {α : Type} [Documented α] (a : α) :
    Format.choice (ofText (Named.name a) : ν) = .ok a := by
  rw [choice_ofText, named_eq_ok]

/-! ## Tables of pins -/

/-- An absent value is left out of a table, and a present one is the one entry under its key. -/
def optionalEntry {α : Type} (key : String) (write : α → ν) (a : Option α) : List (String × ν) :=
  (a.map fun a => (key, write a)).toList

omit [Format ν] [TreeFormat ν] in
@[simp] theorem mem_optionalEntry {α : Type} {key : String} {write : α → ν} {a : Option α}
    {entry : String × ν} :
    entry ∈ optionalEntry key write a ↔ ∃ b, a = some b ∧ entry = (key, write b) := by
  cases a <;> simp [optionalEntry]

omit [Format ν] [TreeFormat ν] in
theorem keys_optionalEntry {α : Type} (key : String) (write : α → ν) (a : Option α) :
    keys (optionalEntry key write a) = if a.isSome then [key] else [] := by
  cases a <;> rfl

omit [TreeFormat ν] in
/-- An optional value that is written under its key is what the table says there. -/
theorem holds_optionalEntry {α : Type} {means : ν → α → Prop} {table : List (String × ν)}
    {key : String} (write : α → ν) {a : Option α}
    (hmem : ∀ value, (key, value) ∈ table ↔ (key, value) ∈ optionalEntry key write a)
    (hnull : ∀ b, Format.isNull (write b) = false) (hmeans : ∀ b, a = some b → means (write b) b) :
    Holds means table key a := by
  cases a with
  | none =>
    refine .missing fun hkey => ?_
    obtain ⟨value, hvalue⟩ := mem_keys.mp hkey
    rw [hmem] at hvalue
    cases hvalue
  | some a => exact .value ((hmem _).mpr (.head _)) (hnull a) (hmeans a rfl)

theorem nodup_keys_pins {pins : List (Property × Bool)} (h : (pins.map Prod.fst).Nodup)
    {α : Type} (write : α → ν) (rule : Option α) :
    (keys (pins.map pinEntry ++ optionalEntry tailPaddingKey write rule)).Nodup := by
  have hkeys : keys (pins.map (pinEntry : _ → String × ν)) =
      (pins.map Prod.fst).map Property.key := by
    simp [keys, pinEntry]
  rw [keys_append, hkeys, keys_optionalEntry, List.nodup_append]
  refine ⟨?_, by split <;> simp, ?_⟩
  · refine List.pairwise_map.mpr (h.imp fun hne heq => hne ?_)
    exact Named.name_injective _ _ heq
  · intro key hkey other hother
    obtain ⟨property, _, rfl⟩ := List.mem_map.mp hkey
    have htail : other = tailPaddingKey := by
      split at hother <;> simp_all
    exact htail ▸ key_ne_tailPaddingKey property

/-- Among pins and a tail padding, a fact has the values of its pins. -/
theorem mem_pins_append {pins : List (Property × Bool)} {α : Type} {write : α → ν}
    {rule : Option α} {property : Property} {value : ν} :
    (property.key, value) ∈ pins.map pinEntry ++ optionalEntry tailPaddingKey write rule ↔
      ∃ truth, value = ofBoolean truth ∧ (property, truth) ∈ pins := by
  have hno : (property.key, value) ∉ optionalEntry tailPaddingKey write rule := by
    simp [key_ne_tailPaddingKey]
  rw [List.mem_append, or_iff_left hno, mem_pinEntry]

/-- Among pins and a tail padding, the key of the latter has its value. -/
theorem mem_append_tailPadding {pins : List (Property × Bool)} {α : Type} {write : α → ν}
    {rule : Option α} {value : ν} :
    (tailPaddingKey, value) ∈ pins.map pinEntry ++ optionalEntry tailPaddingKey write rule ↔
      (tailPaddingKey, value) ∈ optionalEntry tailPaddingKey write rule := by
  have hno : (tailPaddingKey, value) ∉ pins.map pinEntry := by
    intro hmem
    obtain ⟨pin, _, hpin⟩ := List.mem_map.mp hmem
    exact key_ne_tailPaddingKey pin.1 (congrArg Prod.fst hpin)
  rw [List.mem_append, or_iff_right hno]

theorem known_of_mem_pins {pins : List (Property × Bool)} {α : Type} {write : α → ν}
    {rule : Option α} {key : String}
    (h : key ∈ keys (pins.map pinEntry ++ optionalEntry tailPaddingKey write rule)) :
    key = tailPaddingKey ∨ ∃ property : Property, key = property.key := by
  rw [keys_append, keys_optionalEntry, List.mem_append] at h
  obtain h | h := h
  · obtain ⟨_, hentry, rfl⟩ := List.mem_map.mp h
    obtain ⟨pin, _, rfl⟩ := List.mem_map.mp hentry
    exact .inr ⟨pin.1, rfl⟩
  · split at h
    · exact .inl (List.mem_singleton.mp h)
    · cases h

/-! ## Expectations -/

namespace Expectations

def tableOf (e : Expectations) : List (String × ν) :=
  e.entries.map pinEntry ++
    optionalEntry tailPaddingKey (fun rule => ofText rule.name) e.tailPadding

theorem entries_sublist (e : Expectations) : (e.entries.map Prod.fst).Sublist Property.list := by
  rw [entries]
  induction Property.list with
  | nil => exact .slnil
  | cons property list ih =>
    cases hpin : e.pinned property with
    | none => simpa [List.filterMap_cons, hpin] using ih.cons property
    | some truth => simpa [List.filterMap_cons, hpin] using ih

theorem nodup_keys_tableOf (e : Expectations) : (keys (e.tableOf : List (String × ν))).Nodup :=
  nodup_keys_pins ((Named.nodup_all : Property.list.Nodup).sublist e.entries_sublist) _ _

theorem denotes_tableOf (e : Expectations) :
    DenotesExpectations (e.tableOf : List (String × ν)) e := by
  refine ⟨fun key => known_of_mem_pins, fun property value hmem => ?_, fun property truth => ?_, ?_⟩
  · obtain ⟨truth, htruth, _⟩ := mem_pins_append.mp hmem
    exact ⟨truth, htruth⟩
  · rw [← mem_entries, tableOf, mem_pins_append]
    constructor
    · exact fun hmem => ⟨truth, rfl, hmem⟩
    · rintro ⟨other, hother, hmem⟩
      exact ofBoolean_injective hother ▸ hmem
  · exact holds_optionalEntry _ (fun _ => mem_append_tailPadding) (fun _ => isNull_ofText _)
      fun rule _ => choice_name rule

/-- Written expectations are decoded to themselves. -/
theorem expectationsOfEntries_tableOf (room : Nat) (e : Expectations) :
    expectationsOfEntries room (entriesOf (e.tableOf : List (String × ν))) = .ok e :=
  (expectationsOfEntries_eq_ok e.nodup_keys_tableOf).mpr e.denotes_tableOf

end Expectations

/-! ## Snapshots -/

namespace Snapshot

def tableOf (s : Snapshot) : List (String × ν) :=
  ("kind", ofText s.kind.name) :: (s.entries.map pinEntry ++
    optionalEntry tailPaddingKey (fun rule => ofText rule.name) (some s.tailPadding))

theorem nodup_keys_tableOf (s : Snapshot) : (keys (s.tableOf : List (String × ν))).Nodup := by
  have hfacts : s.entries.map Prod.fst = Property.list := by
    rw [entries, List.map_map]
    exact List.map_id Property.list
  have hnodup : (s.entries.map Prod.fst).Nodup := hfacts ▸ Named.nodup_all
  rw [tableOf, keys_cons, List.nodup_cons]
  refine ⟨fun hkind => ?_, nodup_keys_pins hnodup _ _⟩
  have hno : "kind" ≠ tailPaddingKey ∧ ∀ property : Property, "kind" ≠ property.key := by
    refine ⟨by decide, fun property => ?_⟩
    cases property <;> decide
  obtain htail | ⟨property, hproperty⟩ := known_of_mem_pins hkind
  · exact hno.1 htail
  · exact hno.2 property hproperty

theorem denotes_tableOf (s : Snapshot) : DenotesSnapshot (s.tableOf : List (String × ν)) s := by
  refine ⟨⟨_, .head _, choice_name s.kind⟩, fun property => .tail _ ?_, ⟨_, .tail _ ?_,
    choice_name s.tailPadding⟩⟩
  · refine mem_pins_append.mpr ⟨s.value property, rfl, ?_⟩
    exact List.mem_map_of_mem (Named.mem_all property)
  · exact mem_append_tailPadding.mpr (.head _)

/-- A written snapshot is decoded to itself. -/
theorem snapshotOfEntries_tableOf (s : Snapshot) :
    snapshotOfEntries (entriesOf (s.tableOf : List (String × ν))) = .ok s := by
  have honce := List.nodup_iff_count.mp (s.nodup_keys_tableOf (ν := ν))
  refine snapshotOfEntries_eq_ok.mpr ⟨fun field => honce _, fun key value hmem hfind => ?_,
    s.denotes_tableOf⟩
  have hno := Named.find?_eq_none_iff.mp hfind
  have hkey := mem_keys_of_mem hmem
  rw [tableOf, keys_cons, List.mem_cons] at hkey
  obtain hkind | hkey := hkey
  · exact absurd hkind (hno .kind)
  · obtain htail | ⟨property, hproperty⟩ := known_of_mem_pins hkey
    · exact absurd htail (hno .tailPadding)
    · exact absurd hproperty (hno (.value property))

end Snapshot

/-! ## Profiles -/

namespace Profile

def tableOf (p : Profile) : List (String × ν) :=
  [("name", ofText p.name), ("abi", ofText p.abi.name)] ++
    optionalEntry "description" ofText p.description ++
    optionalEntry "expect" (fun e => ofTable e.tableOf) p.expect

theorem mem_tableOf {p : Profile} {key : String} {value : ν} :
    (key, value) ∈ p.tableOf ↔ (key = "name" ∧ value = ofText p.name) ∨
      (key = "abi" ∧ value = ofText p.abi.name) ∨
      (∃ text, p.description = some text ∧ key = "description" ∧ value = ofText text) ∨
      ∃ e, p.expect = some e ∧ key = "expect" ∧ value = ofTable e.tableOf := by
  simp [tableOf]

theorem nodup_keys_tableOf (p : Profile) : (keys (p.tableOf : List (String × ν))).Nodup := by
  simp only [tableOf, keys_append, keys_optionalEntry, keys_cons, keys_nil]
  split <;> split <;> decide

theorem denotes_tableOf (p : Profile) : DenotesProfile (p.tableOf : List (String × ν)) p := by
  refine ⟨fun key hkey => ?_, ?_, ⟨ofText p.abi.name, ?_, choice_name p.abi⟩, ?_, ?_⟩
  · obtain ⟨value, hvalue⟩ := mem_keys.mp hkey
    obtain ⟨rfl, _⟩ | ⟨rfl, _⟩ | ⟨_, _, rfl, _⟩ | ⟨_, _, rfl, _⟩ := mem_tableOf.mp hvalue
    · exact ⟨.name, rfl⟩
    · exact ⟨.abi, rfl⟩
    · exact ⟨.description, rfl⟩
    · exact ⟨.expect, rfl⟩
  · exact mem_tableOf.mpr (.inl ⟨rfl, rfl⟩)
  · exact mem_tableOf.mpr (.inr (.inl ⟨rfl, rfl⟩))
  · refine holds_optionalEntry ofText (fun value => ?_) isNull_ofText fun _ _ => rfl
    simp [mem_tableOf]
  · refine holds_optionalEntry (fun e => ofTable e.tableOf) (fun value => ?_)
      (fun _ => isNull_ofTable _) fun e _ => ⟨_, rfl, e.denotes_tableOf⟩
    simp [mem_tableOf]

/-- A written profile is decoded to itself. -/
theorem profileOfEntries_tableOf (room : Nat) (p : Profile) :
    profileOfEntries room (entriesOf (p.tableOf : List (String × ν))) = .ok p := by
  have hinner : ∀ inner : List (String × ν), ("expect", ofTable inner) ∈ p.tableOf →
      (keys inner).Nodup := by
    intro inner hmem
    simp only [mem_tableOf, String.reduceEq, false_and, and_false, exists_const, true_and,
      false_or] at hmem
    obtain ⟨e, _, htable⟩ := hmem
    exact ofTable_injective htable ▸ e.nodup_keys_tableOf
  exact (profileOfEntries_eq_ok hinner).mpr ⟨p.nodup_keys_tableOf, p.denotes_tableOf⟩

end Profile
end AbiFacts
