import AbiFacts.Decode.Profile
import AbiFacts.Proofs.Decode.Expectations

/-! # Tables of profiles

What a table says as a profile, without regard to the order of its entries. A table is decoded to a
profile exactly when its keys are distinct and it says just this profile
(`profileOfEntries_eq_ok`); so a table in another order is decoded to the same one.
-/
namespace AbiFacts.Decode

variable {ν : Type} [Format ν]

def ProfileFields.Part : Profile.Field → Type
  | .name => String
  | .abi => Kind
  | .description => Option String
  | .expect => Option Expectations

theorem ProfileFields.fieldFor_name (fields : ProfileFields) (field : Profile.Field) :
    fields.fieldFor (Named.name field) =
      if fields.has field then .error (.data (.duplicateField (Named.name field)))
      else .ok field := by
  rw [fieldFor, Named.find?_name]

def ProfileFields.record (room : Nat) :
    Record (ν := ν) ProfileFields Profile.Field (ProfileFields.step room) where
  Part := Part
  decode
    | .name => Format.text
    | .abi => (Format.choice : ν → Except Failure Kind)
    | .description => optional Format.text
    | .expect => optional (expectations room)
  met fields
    | .name => fields.name
    | .abi => fields.abi
    | .description => fields.description
    | .expect => fields.expect
  put fields
    | .name, met => { fields with name := some met }
    | .abi, met => { fields with abi := some met }
    | .description, met => { fields with description := some met }
    | .expect, met => { fields with expect := some met }
  pass key _ := .error (.data (.unknownField key (Named.names Profile.Field)))
  met_put_self := by
    intro fields field met
    cases field <;> rfl
  met_put_of_ne := by
    intro fields field met other hother
    cases field <;> cases other <;> first | rfl | exact absurd rfl hother
  step_open := by
    intro fields field value hopen
    have hhas : fields.has field = false := by
      cases field <;> exact Option.isSome_eq_false_iff.mpr (Option.isNone_iff_eq_none.mpr hopen)
    rw [step, fieldFor_name, hhas]
    cases field <;> rfl
  step_met := by
    intro fields field value hmet t
    have hhas : fields.has field = true := by
      cases field <;> exact Option.isSome_iff_ne_none.mpr hmet
    rw [step, fieldFor_name, hhas]
    rintro ⟨⟩
  step_other := by
    intro fields key value hfind
    rw [step, fieldFor, hfind]
    rfl
  step_bare := by
    intro fields key t h
    obtain ⟨_, _, h⟩ := bind_eq_ok.mp h
    cases h
  step_cut := by
    rintro fields t ⟨⟩

theorem ProfileFields.finish_eq_ok {fields : ProfileFields} {profile : Profile} :
    fields.finish = .ok profile ↔
      fields.name = some profile.name ∧ fields.abi = some profile.abi ∧
      fields.description.join = profile.description ∧ fields.expect.join = profile.expect := by
  obtain ⟨name, abi, description, expect⟩ := fields
  obtain ⟨_, _, _, _⟩ := profile
  cases name <;> cases abi <;> simp [finish]

/-- The optional fields that have been filled from a table are what the table says. -/
theorem holds_of_fills {room : Nat} {table : List (String × ν)} {fields : ProfileFields}
    (h : (ProfileFields.record room).Fills {} table fields) :
    Holds (Format.text · = .ok ·) table "description" fields.description.join ∧
      Holds (expectations room · = .ok ·) table "expect" fields.expect.join := by
  constructor
  · refine holds_join (fun hmet => h.met_eq_none .description hmet) fun _ hmet => ?_
    exact (h.met_eq_some .description rfl).mp hmet
  · refine holds_join (fun hmet => h.met_eq_none .expect hmet) fun _ hmet => ?_
    exact (h.met_eq_some .expect rfl).mp hmet

variable [TreeFormat ν]

open TreeFormat

structure DenotesProfile (table : List (String × ν)) (profile : Profile) : Prop where
  known : ∀ key ∈ keys table, ∃ field : Profile.Field, key = Named.name field
  name : ("name", ofText profile.name) ∈ table
  abi : ∃ value, ("abi", value) ∈ table ∧ Format.choice value = .ok profile.abi
  description : Holds (fun value text => value = ofText text) table "description"
    profile.description
  expect : Holds (fun value e => ∃ inner, value = ofTable inner ∧ DenotesExpectations inner e) table
    "expect" profile.expect

/-- Expectations below a key, by what their table says. -/
theorem expectations_iff {room : Nat} {table : List (String × ν)} {key : String}
    (hinner : ∀ inner, (key, ofTable inner) ∈ table → (keys inner).Nodup) {value : ν}
    (hmem : (key, value) ∈ table) {e : Expectations} :
    expectations room value = .ok e ↔
      ∃ inner, value = ofTable inner ∧ DenotesExpectations inner e := by
  rw [expectations_eq_ok]
  refine exists_congr fun inner => and_congr_right ?_
  rintro rfl
  exact expectationsOfEntries_eq_ok (hinner inner hmem)

section
variable {room : Nat} {table : List (String × ν)} {profile : Profile}

/-- A table from which the fields of a profile are filled says what the profile says. -/
theorem denotesProfile_of_fills
    (hinner : ∀ inner, ("expect", ofTable inner) ∈ table → (keys inner).Nodup)
    {fields : ProfileFields} (hfills : (ProfileFields.record room).Fills {} table fields)
    (hfinish : fields.finish = .ok profile) : DenotesProfile table profile := by
  obtain ⟨hname, habi, hdescription, hexpect⟩ := ProfileFields.finish_eq_ok.mp hfinish
  have hholds := holds_of_fills hfills
  rw [hdescription, hexpect] at hholds
  refine ⟨fun key hkey => ?_, ?_, ?_, ?_, ?_⟩
  · obtain ⟨value, hvalue⟩ := mem_keys.mp hkey
    cases hfind : (Named.find? key : Option Profile.Field) with
    | none => cases hfills.passes hvalue hfind
    | some field => exact ⟨field, Named.find?_eq_some_iff.mp hfind⟩
  · obtain ⟨value, hvalue, htext⟩ := (hfills.met_eq_some .name rfl).mp hname
    exact text_eq_ok.mp htext ▸ hvalue
  · exact (hfills.met_eq_some .abi rfl).mp habi
  · exact hholds.1.imp fun _ _ _ => text_eq_ok.mp
  · exact hholds.2.imp fun _ _ hmem => (expectations_iff hinner hmem).mp

namespace DenotesProfile

theorem holds_description (h : DenotesProfile table profile) :
    Holds (Format.text · = .ok ·) table "description" profile.description :=
  h.description.imp fun _ _ _ => text_eq_ok.mpr

theorem holds_expect (h : DenotesProfile table profile)
    (hinner : ∀ inner, ("expect", ofTable inner) ∈ table → (keys inner).Nodup) :
    Holds (expectations room · = .ok ·) table "expect" profile.expect :=
  h.expect.imp fun _ _ hmem => (expectations_iff hinner hmem).mpr

/-- Each entry of the table fits the field that it is for. -/
theorem fits (h : DenotesProfile table profile) (hkeys : (keys table).Nodup)
    (hinner : ∀ inner, ("expect", ofTable inner) ∈ table → (keys inner).Nodup) :
    (ProfileFields.record room).Fits {} table := by
  obtain ⟨abi, habi, hchoice⟩ := h.abi
  have hname : Format.text (ofText profile.name : ν) = .ok profile.name := text_eq_ok.mpr rfl
  have honce := fun field : Profile.Field => List.nodup_iff_count.mp hkeys (Named.name field)
  refine ⟨honce, fun field _ => ?_,
    fun field value hmem => ?_, fun key value hmem hfind => ?_⟩
  · cases field <;> rfl
  · cases field with
    | name => exact ⟨profile.name, value_unique hkeys hmem h.name ▸ hname⟩
    | abi => exact ⟨profile.abi, value_unique hkeys hmem habi ▸ hchoice⟩
    | description =>
      exact ⟨profile.description, h.holds_description.decode (honce .description) hmem⟩
    | expect => exact ⟨profile.expect, (h.holds_expect hinner).decode (honce .expect) hmem⟩
  · obtain ⟨field, rfl⟩ := h.known key (mem_keys_of_mem hmem)
    simp at hfind

end DenotesProfile

theorem profileOfEntries_eq_ok
    (hinner : ∀ inner, ("expect", ofTable inner) ∈ table → (keys inner).Nodup) :
    profileOfEntries room (entriesOf table) = .ok profile ↔
      (keys table).Nodup ∧ DenotesProfile table profile := by
  rw [profileOfEntries, bind_eq_ok]
  constructor
  · rintro ⟨fields, hfold, hfinish⟩
    have hfills := (ProfileFields.record room).fills_of_foldlM hfold
    have h := denotesProfile_of_fills hinner hfills hfinish
    refine ⟨List.nodup_iff_count.mpr fun key => ?_, h⟩
    by_cases hkey : key ∈ keys table
    · obtain ⟨field, rfl⟩ := h.known key hkey
      exact hfills.once field
    · rw [List.count_eq_zero.mpr hkey]
      exact Nat.zero_le 1
  · rintro ⟨hkeys, h⟩
    obtain ⟨fields, hfills⟩ := (h.fits hkeys hinner).fills
    have hholds := holds_of_fills hfills
    refine ⟨fields, hfills.foldlM, ProfileFields.finish_eq_ok.mpr ⟨?_, ?_, ?_, ?_⟩⟩
    · exact (hfills.met_eq_some .name rfl).mpr ⟨_, h.name, text_eq_ok.mpr rfl⟩
    · exact (hfills.met_eq_some .abi rfl).mpr h.abi
    · exact hholds.1.unique (hfills.once .description) h.holds_description
    · exact hholds.2.unique (hfills.once .expect) (h.holds_expect hinner)

end
end AbiFacts.Decode
