import AbiFacts.Proofs.Decode.Profiles
import AbiFacts.Proofs.Json.Decoding
import AbiFacts.Proofs.Toml.DistinctKeys
import AbiFacts.Proofs.Toml.RoundTrip

/-! # Strict decoding of profiles

A table is decoded as a profile if and only if it looks like one, entry by entry, and then the
profile is what the table says: nothing is dropped and nothing is made up. What a table says does
not depend on the order of its entries, nor on the order of the pins in it.
-/
namespace AbiFacts

namespace Decode

open TreeFormat

variable {ν : Type} [Format ν] [TreeFormat ν]

/-! ## Tables that can be decoded -/

/-- Every entry is a fact with a boolean or the tail padding with a rule. -/
structure IsExpectations (table : List (String × ν)) : Prop where
  known : ∀ key ∈ keys table, key = tailPaddingKey ∨ ∃ property : Property, key = property.key
  isBoolean : ∀ (property : Property) value, (property.key, value) ∈ table →
    ∃ truth, value = ofBoolean truth
  isRule : ∀ value, (tailPaddingKey, value) ∈ table →
    Format.isNull value = true ∨ ∃ rule : TailPadding, Format.choice value = .ok rule

/-- Name and kind are there, and all entries are fields with values of their types. -/
structure IsProfile (table : List (String × ν)) : Prop where
  known : ∀ key ∈ keys table, ∃ field : Profile.Field, key = Named.name field
  name : ∃ text, ("name", ofText text) ∈ table
  abi : ∃ value, ("abi", value) ∈ table ∧ ∃ kind : Kind, Format.choice value = .ok kind
  description : ∀ value, ("description", value) ∈ table →
    Format.isNull value = true ∨ ∃ text, value = ofText text
  expect : ∀ value, ("expect", value) ∈ table →
    Format.isNull value = true ∨ ∃ inner, value = ofTable inner ∧ IsExpectations inner

omit [TreeFormat ν] in
/-- A key that may be left out says something as soon as its value can be understood. -/
theorem exists_holds {α : Type} {means : ν → α → Prop} {table : List (String × ν)} {key : String}
    (h : ∀ value, (key, value) ∈ table → Format.isNull value = true ∨ ∃ a, means value a) :
    ∃ a, Holds means table key a := by
  by_cases hkey : key ∈ keys table
  · obtain ⟨value, hvalue⟩ := mem_keys.mp hkey
    cases hnull : Format.isNull value with
    | true => exact ⟨none, .null hvalue hnull⟩
    | false =>
      obtain htrue | ⟨a, ha⟩ := h value hvalue
      · rw [hnull] at htrue
        cases htrue
      · exact ⟨some a, .value hvalue hnull ha⟩
  · exact ⟨none, .missing hkey⟩

omit [TreeFormat ν] in
/-- What is said under a key that occurs once is understood. -/
theorem Holds.understood {α : Type} {means : ν → α → Prop} {table : List (String × ν)}
    {key : String} (hcount : (keys table).count key ≤ 1) {a : Option α}
    (h : Holds means table key a) {value : ν} (hmem : (key, value) ∈ table) :
    Format.isNull value = true ∨ ∃ a, means value a := by
  cases h with
  | missing hno => exact absurd (mem_keys_of_mem hmem) hno
  | null hother hnull => exact .inl (value_unique_of_count hcount hother hmem ▸ hnull)
  | value hother _ hvalue => exact .inr ⟨_, value_unique_of_count hcount hother hmem ▸ hvalue⟩

theorem exists_denotesExpectations {table : List (String × ν)} (hkeys : (keys table).Nodup) :
    (∃ e, DenotesExpectations table e) ↔ IsExpectations table := by
  constructor
  · rintro ⟨e, h⟩
    have honce := List.nodup_iff_count.mp hkeys tailPaddingKey
    exact ⟨h.known, h.isBoolean, fun value => h.tailPadding.understood honce⟩
  · intro h
    have hpin : ∀ property : Property, ∃ pin : Option Bool, ∀ truth,
        pin = some truth ↔ (property.key, ofBoolean truth) ∈ table := by
      intro property
      by_cases hkey : property.key ∈ keys table
      · obtain ⟨value, hvalue⟩ := mem_keys.mp hkey
        obtain ⟨truth, rfl⟩ := h.isBoolean property value hvalue
        refine ⟨some truth, fun other =>
          ⟨fun heq => Option.some.inj heq ▸ hvalue, fun hother => ?_⟩⟩
        exact congrArg some (ofBoolean_injective (value_unique hkeys hvalue hother))
      · refine ⟨none, fun truth => ⟨(fun heq => nomatch heq), fun hmem => ?_⟩⟩
        exact absurd (mem_keys_of_mem hmem) hkey
    obtain ⟨pinned, hpinned⟩ := Classical.axiomOfChoice hpin
    obtain ⟨rule, hrule⟩ := exists_holds h.isRule
    exact ⟨⟨pinned, rule⟩, h.known, h.isBoolean, hpinned, hrule⟩

structure HasDistinctKeys (table : List (String × ν)) : Prop where
  keys : (keys table).Nodup
  expect : ∀ inner, ("expect", ofTable inner) ∈ table → (AbiFacts.keys inner).Nodup

theorem exists_denotesProfile {table : List (String × ν)} (hkeys : HasDistinctKeys table) :
    (∃ p, DenotesProfile table p) ↔ IsProfile table := by
  constructor
  · rintro ⟨p, h⟩
    obtain ⟨value, hvalue, hchoice⟩ := h.abi
    refine ⟨h.known, ⟨p.name, h.name⟩, ⟨value, hvalue, p.abi, hchoice⟩, fun value hmem => ?_,
      fun value hmem => ?_⟩
    · exact h.description.understood (List.nodup_iff_count.mp hkeys.keys _) hmem
    · refine (h.expect.understood (List.nodup_iff_count.mp hkeys.keys _) hmem).imp_right ?_
      rintro ⟨e, inner, rfl, hinner⟩
      exact ⟨inner, rfl, (exists_denotesExpectations (hkeys.expect inner hmem)).mp ⟨e, hinner⟩⟩
  · intro h
    obtain ⟨name, hname⟩ := h.name
    obtain ⟨value, hvalue, kind, hchoice⟩ := h.abi
    obtain ⟨description, hdescription⟩ := exists_holds h.description
    have hexpect : ∀ value, ("expect", value) ∈ table → Format.isNull value = true ∨
        ∃ e inner, value = ofTable inner ∧ DenotesExpectations inner e := by
      intro value hmem
      refine (h.expect value hmem).imp_right ?_
      rintro ⟨inner, rfl, hinner⟩
      obtain ⟨e, he⟩ := (exists_denotesExpectations (hkeys.expect inner hmem)).mpr hinner
      exact ⟨e, inner, rfl, he⟩
    obtain ⟨expect, hexpect⟩ := exists_holds hexpect
    exact ⟨⟨name, kind, description, expect⟩, h.known, hname, ⟨value, hvalue, hchoice⟩,
      hdescription, hexpect⟩

/-! ## Order -/

/-- The same entries in another order, in the table and in its table of expectations. -/
inductive Rearranged : List (String × ν) → List (String × ν) → Prop where
  | perm {a b : List (String × ν)} (h : a.Perm b) : Rearranged a b
  | expect {front back s t : List (String × ν)} (h : s.Perm t) :
      Rearranged (front ++ ("expect", ofTable s) :: back) (front ++ ("expect", ofTable t) :: back)
  | trans {a b c : List (String × ν)} (hab : Rearranged a b) (hbc : Rearranged b c) :
      Rearranged a c

omit [TreeFormat ν] in
theorem Holds.of_mem_iff {α : Type} {means : ν → α → Prop} {a b : List (String × ν)} {key : String}
    (hmem : ∀ value, (key, value) ∈ a ↔ (key, value) ∈ b) {x : Option α} :
    Holds means a key x → Holds means b key x
  | .missing hno => .missing fun hkey => by
    obtain ⟨value, hvalue⟩ := mem_keys.mp hkey
    exact hno (mem_keys_of_mem ((hmem value).mpr hvalue))
  | .null h hnull => .null ((hmem _).mp h) hnull
  | .value h hnull hvalue => .value ((hmem _).mp h) hnull hvalue

theorem DenotesExpectations.perm {a b : List (String × ν)} (hperm : a.Perm b) {e : Expectations}
    (h : DenotesExpectations a e) : DenotesExpectations b e where
  known key hkey := h.known key ((hperm.map Prod.fst).mem_iff.mpr hkey)
  isBoolean property value hmem := h.isBoolean property value (hperm.mem_iff.mpr hmem)
  pinned property truth := (h.pinned property truth).trans hperm.mem_iff
  tailPadding := h.tailPadding.of_mem_iff fun _ => hperm.mem_iff

theorem DenotesProfile.perm {a b : List (String × ν)} (hperm : a.Perm b) {p : Profile}
    (h : DenotesProfile a p) : DenotesProfile b p where
  known key hkey := h.known key ((hperm.map Prod.fst).mem_iff.mpr hkey)
  name := hperm.mem_iff.mp h.name
  abi := h.abi.imp fun _ => And.imp_left hperm.mem_iff.mp
  description := h.description.of_mem_iff fun _ => hperm.mem_iff
  expect := h.expect.of_mem_iff fun _ => hperm.mem_iff

theorem DenotesProfile.expect_perm {front back s t : List (String × ν)} (hperm : s.Perm t)
    {p : Profile} (h : DenotesProfile (front ++ ("expect", ofTable s) :: back) p) :
    DenotesProfile (front ++ ("expect", ofTable t) :: back) p := by
  have hkeys : keys (front ++ ("expect", ofTable t) :: back) =
      keys (front ++ ("expect", ofTable s) :: back) := by
    simp
  have hmem : ∀ key value, key ≠ "expect" →
      ((key, value) ∈ front ++ ("expect", ofTable s) :: back ↔
        (key, value) ∈ front ++ ("expect", ofTable t) :: back) := by
    intro key value hne
    simp [hne]
  refine ⟨hkeys ▸ h.known, (hmem _ _ (by decide)).mp h.name, ?_, ?_, ?_⟩
  · exact h.abi.imp fun _ => And.imp_left (hmem _ _ (by decide)).mp
  · exact h.description.of_mem_iff fun _ => hmem _ _ (by decide)
  have hother : ∀ value, ("expect", value) ∈ front ++ ("expect", ofTable s) :: back →
      value = ofTable s ∨ ("expect", value) ∈ front ++ ("expect", ofTable t) :: back := by
    intro value hvalue
    simp only [List.mem_append, List.mem_cons, Prod.mk.injEq, true_and] at hvalue ⊢
    obtain hfront | htable | hback := hvalue
    · exact .inr (.inl hfront)
    · exact .inl htable
    · exact .inr (.inr (.inr hback))
  have hexpect := h.expect
  generalize p.expect = expect at hexpect ⊢
  cases hexpect with
  | missing hno => exact .missing (hkeys ▸ hno)
  | null hvalue hnull =>
    obtain rfl | hvalue := hother _ hvalue
    · rw [isNull_ofTable] at hnull
      cases hnull
    · exact .null hvalue hnull
  | value hvalue hnull hinner =>
    obtain rfl | hvalue := hother _ hvalue
    · obtain ⟨inner, hs, hinner⟩ := hinner
      obtain rfl := ofTable_injective hs
      exact .value (by simp) (isNull_ofTable t) ⟨t, rfl, hinner.perm hperm⟩
    · exact .value hvalue hnull hinner

theorem Rearranged.hasDistinctKeys {a b : List (String × ν)} (h : Rearranged a b) :
    HasDistinctKeys a → HasDistinctKeys b := by
  induction h with
  | perm hperm =>
    intro ha
    refine ⟨(hperm.map Prod.fst).nodup_iff.mp ha.keys, fun inner hinner => ?_⟩
    exact ha.expect inner (hperm.mem_iff.mpr hinner)
  | @expect front back s t hperm =>
    intro ha
    refine ⟨by simpa using ha.keys, fun inner hinner => ?_⟩
    simp only [List.mem_append, List.mem_cons, Prod.mk.injEq, true_and] at hinner
    obtain hfront | htable | hback := hinner
    · exact ha.expect inner (by simp [hfront])
    · rw [ofTable_injective htable]
      exact (hperm.map Prod.fst).nodup_iff.mp (ha.expect s (by simp))
    · exact ha.expect inner (by simp [hback])
  | trans _ _ ihab ihbc => exact fun ha => ihbc (ihab ha)

/-- What a table says does not depend on the order of its entries. -/
theorem Rearranged.denotes {a b : List (String × ν)} (h : Rearranged a b) {p : Profile} :
    DenotesProfile a p → DenotesProfile b p := by
  induction h with
  | perm hperm => exact .perm hperm
  | expect hperm => exact .expect_perm hperm
  | trans _ _ ihab ihbc => exact fun hp => ihbc (ihab hp)

/-! ## Both formats -/

/-- A table is decoded if and only if it looks like a profile, and then to the profile it says. -/
structure StrictlyDecoded (table : List (String × ν)) (result : Except Failure Profile) : Prop where
  succeeds : (∃ p, result = .ok p) ↔ IsProfile table
  denotes : ∀ p, result = .ok p ↔ DenotesProfile table p

theorem HasDistinctKeys.strictlyDecoded {table : List (String × ν)} (hkeys : HasDistinctKeys table)
    (room : Nat) : StrictlyDecoded table (profileOfEntries room (entriesOf table)) := by
  have hdenotes : ∀ p, profileOfEntries room (entriesOf table) = .ok p ↔ DenotesProfile table p :=
    fun p => (profileOfEntries_eq_ok hkeys.expect).trans (and_iff_right hkeys.keys)
  exact ⟨(exists_congr hdenotes).trans (exists_denotesProfile hkeys), hdenotes⟩

end Decode

open Decode

namespace Toml

theorem hasDistinctKeys_of_read? {text : String} {table : Table} (h : read? text = some table) :
    HasDistinctKeys table := by
  cases distinct_of_read? h with
  | table hkeys hvalues =>
    refine ⟨hkeys, fun inner hinner => ?_⟩
    cases hvalues _ hinner with
    | table hinner _ => exact hinner

theorem profile?_strictlyDecoded {text : String} {table : Table} (h : read? text = some table) :
    StrictlyDecoded table (profile? text) := by
  rw [profile?, decode_of_read? h]
  exact (hasDistinctKeys_of_read? h).strictlyDecoded room

end Toml

namespace Json

theorem profile?_of_scan {text : String} {value : Scan} (h : scan text = (value, false)) :
    profile? text = value.profile :=
  decode_of_scan h

theorem profile_ofTable (table : List (String × Scan)) :
    (Scan.ofTable table).profile = profileOfEntries (maxNesting - 1) (entriesOf table) := by
  rw [← Scan.steps_ofTable]
  rfl

theorem profile?_strictlyDecoded {text : String} {table : List (String × Scan)}
    (h : scan text = (Scan.ofTable table, false)) (hkeys : HasDistinctKeys table) :
    StrictlyDecoded table (profile? text) := by
  rw [profile?_of_scan h, profile_ofTable]
  exact hkeys.strictlyDecoded _

/-- An object is decoded only if it is closed and each of its keys is a text. -/
theorem isTable_of_profile? {text : String} {entries : List (Option String × Scan)}
    {ending : Ending} (h : scan text = (.object entries ending, false)) {p : Profile}
    (hp : profile? text = .ok p) : ∃ table, Scan.object entries ending = Scan.ofTable table := by
  rw [profile?_of_scan h] at hp
  obtain ⟨steps, hsteps, hp⟩ := bind_eq_ok.mp hp
  obtain ⟨fields, hfold, _⟩ := bind_eq_ok.mp hp
  obtain ⟨table, rfl⟩ := (ProfileFields.record _).entriesOf_of_foldlM hfold
  exact ⟨table, Scan.entries_eq_ok hsteps⟩

end Json

namespace Decode

/-- Decoding drops nothing of a profile and does not look at the order of its entries. In TOML no
value stands for an absent one, and a text that is read has distinct keys anyway. -/
theorem profiles_are_decoded_strictly :
    (∀ text table, Toml.read? text = some table →
      StrictlyDecoded table (Toml.profile? text) ∧
      ∀ other table', Toml.read? other = some table' → Rearranged table table' →
        ∀ p, Toml.profile? text = .ok p → Toml.profile? other = .ok p) ∧
    (∀ text table, Json.scan text = (Json.Scan.ofTable table, false) → HasDistinctKeys table →
      StrictlyDecoded table (Json.profile? text) ∧
      ∀ other table', Json.scan other = (Json.Scan.ofTable table', false) →
        Rearranged table table' →
        ∀ p, Json.profile? text = .ok p → Json.profile? other = .ok p) ∧
    (∀ text entries ending, Json.scan text = (.object entries ending, false) →
      ∀ p, Json.profile? text = .ok p →
        ∃ table, Json.Scan.object entries ending = Json.Scan.ofTable table) := by
  refine ⟨fun text table h => ⟨Toml.profile?_strictlyDecoded h, ?_⟩,
    fun text table h hkeys => ⟨Json.profile?_strictlyDecoded h hkeys, ?_⟩,
    fun text entries ending h p => Json.isTable_of_profile? h⟩
  · intro other table' hother hmoved p hp
    have hdenotes := ((Toml.profile?_strictlyDecoded h).denotes p).mp hp
    exact ((Toml.profile?_strictlyDecoded hother).denotes p).mpr (hmoved.denotes hdenotes)
  · intro other table' hother hmoved p hp
    have hdenotes := ((Json.profile?_strictlyDecoded h hkeys).denotes p).mp hp
    have hstrict := Json.profile?_strictlyDecoded hother (hmoved.hasDistinctKeys hkeys)
    exact (hstrict.denotes p).mpr (hmoved.denotes hdenotes)

/-- A document that names the kind first is decoded to the profile that is written the other way
round. -/
theorem strictly_decoded_kind_first :
    Toml.profile? (Toml.Document.write ⟨[("abi", .string "ios"), ("name", .string "demo")], []⟩) =
      .ok ⟨"demo", .ios, none, none⟩ := by
  have hread : Toml.read? (Profile.toToml ⟨"demo", .ios, none, none⟩) =
      some [("name", .string "demo"), ("abi", .string "ios")] :=
    Toml.read?_write_lines (by decide) (by simp [Toml.Value.IsLeaf])
  have hother : Toml.read? (Toml.Document.write
      ⟨[("abi", .string "ios"), ("name", .string "demo")], []⟩) =
      some [("abi", .string "ios"), ("name", .string "demo")] :=
    Toml.read?_write_lines (by decide) (by simp [Toml.Value.IsLeaf])
  exact (profiles_are_decoded_strictly.1 _ _ hread).2 _ _ hother (.perm (.swap _ _ _)) _
    (Toml.profile?_toToml _)

end Decode
end AbiFacts
