import AbiFacts.Json.Decode
import AbiFacts.Profile.Validation
import AbiFacts.Proofs.Decode.Profiles
import AbiFacts.Proofs.Profile.Edits
import AbiFacts.Proofs.Profile.OrderedPins

/-! # One form for equal pins

However expectations come about, their pins can be held in one list in order: a document or a
snapshot puts its pins there one after another, and each edit puts or removes one. The list does not
depend on the order in which that is done, nor does anything that is written or reported from it
(`pins_are_canonical`).
-/
namespace AbiFacts

/-! ## Documents -/

namespace Decode

variable {ν : Type} [Format ν]

def holdPin (pins : Pins) (entry : String × ν) : Except Failure Pins := do
  let property ← named entry.1
  let value ← Format.boolean entry.2
  return Pins.put (property, value) pins

/-- The pins in the entries of a table, each put in its place when it is met. -/
def pinsOfEntries (room : Nat) (entries : List (Entry ν)) : Except Failure Pins := do
  let (_, others) ← separate room none entries
  others.foldlM holdPin []

theorem holdPin_entries (e : Expectations) (entry : String × ν) :
    holdPin e.entries entry = Expectations.entries <$> pin e entry := by
  rw [holdPin, pin]
  cases (named entry.1 : Except Failure Property) with
  | error => rfl
  | ok property =>
    cases (Format.boolean entry.2 : Except Failure Bool) with
    | error => rfl
    | ok value => exact congrArg Except.ok (e.entries_setPin_some property value).symm

theorem foldlM_holdPin (others : List (String × ν)) (e : Expectations) :
    others.foldlM holdPin e.entries = Expectations.entries <$> others.foldlM pin e := by
  induction others generalizing e with
  | nil => rfl
  | cons entry others ih =>
    rw [List.foldlM_cons, List.foldlM_cons, holdPin_entries]
    cases pin e entry with
    | error => rfl
    | ok first => exact ih first

/-- Whether a table is decoded and to which pins does not depend on how they are held. -/
theorem pinsOfEntries_eq (room : Nat) (entries : List (Entry ν)) :
    pinsOfEntries room entries = Expectations.entries <$> expectationsOfEntries room entries := by
  rw [pinsOfEntries, expectationsOfEntries]
  cases separate room none entries with
  | error => rfl
  | ok separated => exact foldlM_holdPin separated.2 { tailPadding := separated.1 }

/-- The expectations of a profile are decoded from some entries. -/
theorem exists_entries_of_profileOfEntries {room : Nat} {entries : List (Entry ν)} {p : Profile}
    (h : profileOfEntries room entries = .ok p) {e : Expectations} (hexpect : p.expect = some e) :
    ∃ inner : List (Entry ν), expectationsOfEntries (room - 1) inner = .ok e := by
  obtain ⟨fields, hfold, hfinish⟩ := bind_eq_ok.mp h
  obtain ⟨table, rfl⟩ := (ProfileFields.record room).entriesOf_of_foldlM hfold
  obtain ⟨-, -, -, hmet⟩ := ProfileFields.finish_eq_ok.mp hfinish
  have hholds := (holds_of_fills ((ProfileFields.record room).fills_of_foldlM hfold)).2
  rw [hmet, hexpect] at hholds
  cases hholds with
  | value _ _ hvalue =>
    obtain ⟨inner, -, hinner⟩ := bind_eq_ok.mp hvalue
    exact ⟨inner, hinner⟩

end Decode

open Decode

namespace Json

theorem exists_read_of_decode {α : Type} {read : Scan → Except Failure α} {text : String} {a : α}
    (h : decode read text = .ok a) : ∃ value, read value = .ok a := by
  rw [decode] at h
  generalize scan text = scanned at h
  obtain ⟨value, trailing⟩ := scanned
  obtain ⟨decoded, hread, hrest⟩ := bind_eq_ok.mp h
  cases trailing with
  | true => cases hrest
  | false =>
    cases hrest
    exact ⟨value, hread⟩

/-- The expectations of a profile are decoded from some entries, also where it is an array. -/
theorem exists_entries_of_profile {scan : Scan} {p : Profile} (h : scan.profile = .ok p)
    {e : Expectations} (hexpect : p.expect = some e) :
    ∃ (room : Nat) (inner : List (Entry Scan)), expectationsOfEntries room inner = .ok e := by
  unfold Scan.profile at h
  split at h
  case h_1 items closed =>
    simp only [Scan.profileOfItems, bind_eq_ok, pure_eq_ok, Prod.exists] at h
    obtain ⟨_, _, -, _, _, -, _, rest, -, met, _, hmet, _, -, rfl⟩ := h
    obtain rfl : met = some e := hexpect
    cases rest with
    | nil => cases closed <;> cases hmet
    | cons value rest =>
      simp only [Scan.trailing, bind_eq_ok, pure_eq_ok, Prod.mk.injEq] at hmet
      obtain ⟨_, hvalue, rfl, -⟩ := hmet
      obtain ⟨-, hnone⟩ | ⟨-, _, hvalue, hsome⟩ := optional_eq_ok.mp hvalue
      · cases hnone
      · cases hsome
        obtain ⟨inner, -, hinner⟩ := bind_eq_ok.mp hvalue
        exact ⟨_, inner, hinner⟩
  case h_2 =>
    obtain ⟨entries, -, hentries⟩ := bind_eq_ok.mp h
    exact ⟨_, exists_entries_of_profileOfEntries hentries hexpect⟩

end Json

namespace Toml

theorem exists_read_of_decode {α : Type} {read : List (Entry Value) → Except Failure α}
    {text : String} {a : α} (h : decode read text = .ok a) : ∃ entries, read entries = .ok a := by
  unfold decode at h
  split at h
  · exact ⟨_, h⟩
  · cases h

end Toml

/-! ## Histories -/

namespace Expectations

/-- Expectations that come about step by step, and the list in which their pins are held
meanwhile. -/
inductive HeldAs : Expectations → Pins → Prop where
  | decoded {ν : Type} [Format ν] {room : Nat} {entries : List (Entry ν)} {e : Expectations}
      {pins : Pins} (h : expectationsOfEntries room entries = .ok e)
      (hpins : pinsOfEntries room entries = .ok pins) : HeldAs e pins
  | pinAll (abi : Descriptor) : HeldAs (.pinAll abi) (.collect abi.snapshot.entries)
  | empty : HeldAs {} []
  | pin {e : Expectations} {pins : Pins} (h : HeldAs e pins) (property : Property) (value : Bool) :
      HeldAs (e.setPin property (some value)) (.put (property, value) pins)
  | unpin {e : Expectations} {pins : Pins} (h : HeldAs e pins) (property : Property) :
      HeldAs (e.setPin property none) (.remove property pins)
  | tailPadding {e : Expectations} {pins : Pins} (h : HeldAs e pins) (rule : Option TailPadding) :
      HeldAs { e with tailPadding := rule } pins

/-- Expectations that a document holds, by themselves or in a profile, or that pin the facts of an
ABI, and what edits of profiles make of such. -/
inductive Obtainable : Expectations → Prop where
  | json {text : String} {e : Expectations} (h : Json.expectations? text = .ok e) : Obtainable e
  | toml {text : String} {e : Expectations} (h : Toml.expectations? text = .ok e) : Obtainable e
  | jsonProfile {text : String} {p : Profile} {e : Expectations} (h : Json.profile? text = .ok p)
      (hexpect : p.expect = some e) : Obtainable e
  | tomlProfile {text : String} {p : Profile} {e : Expectations} (h : Toml.profile? text = .ok p)
      (hexpect : p.expect = some e) : Obtainable e
  | pinAll (abi : Descriptor) : Obtainable (.pinAll abi)
  | edited {p : Profile} {edit : Profile.Edit} {e : Expectations}
      (hbefore : ∀ before, p.expect = some before → Obtainable before)
      (hexpect : (p.applied edit).expect = some e) : Obtainable e

/-- The pins are held in order, and so as the pins of the expectations are listed. -/
theorem HeldAs.eq_entries {e : Expectations} {pins : Pins} (h : HeldAs e pins) :
    pins = e.entries := by
  induction h with
  | decoded h hpins =>
    rw [pinsOfEntries_eq, h] at hpins
    exact (Except.ok.inj hpins).symm
  | pinAll abi => exact (entries_pinAll abi).symm
  | empty => rfl
  | pin _ property value ih => rw [ih, entries_setPin_some]
  | unpin _ property ih => rw [ih, entries_setPin_none]
  | tailPadding _ rule ih => exact ih

theorem heldAs_of_entries {ν : Type} [Format ν] {room : Nat} {entries : List (Entry ν)}
    {e : Expectations} (h : expectationsOfEntries room entries = .ok e) : ∃ pins, HeldAs e pins :=
  ⟨_, .decoded h (by rw [pinsOfEntries_eq, h]; rfl)⟩

/-- Where there may be no table yet, edits start from the empty one. -/
theorem exists_heldAs_getD {expect : Option Expectations}
    (h : ∀ e, expect = some e → ∃ pins, HeldAs e pins) : ∃ pins, HeldAs (expect.getD {}) pins := by
  cases expect with
  | none => exact ⟨[], .empty⟩
  | some e => exact h e rfl

/-- An edit puts or removes a pin, starts from another list, or leaves the pins as they are. -/
theorem heldAs_applied {p : Profile} {edit : Profile.Edit}
    (h : ∀ e, p.expect = some e → ∃ pins, HeldAs e pins) :
    ∀ e, (p.applied edit).expect = some e → ∃ pins, HeldAs e pins := by
  cases edit with
  | name | description => exact h
  | reparse => rwa [p.applied_of_isIdle rfl]
  | pinAll =>
    rintro _ ⟨⟩
    exact ⟨_, .pinAll _⟩
  | clear => rintro _ ⟨⟩
  | empty =>
    rintro _ ⟨⟩
    exact ⟨[], .empty⟩
  | abi text =>
    rw [Profile.applied, Profile.apply_abi]
    cases Kind.parse? text with
    | none => exact h
    | some kind => exact h
  | pin text value =>
    rw [Profile.applied, Profile.apply_pin]
    cases (Named.find? text : Option Property) with
    | none => exact h
    | some property =>
      rintro _ ⟨⟩
      obtain ⟨pins, hpins⟩ := exists_heldAs_getD h
      exact ⟨_, hpins.pin property value⟩
  | unpin text =>
    rw [Profile.applied, Profile.apply_unpin]
    cases (Named.find? text : Option Property) with
    | none => exact h
    | some property =>
      intro e hexpect
      obtain ⟨before, hbefore, rfl⟩ := Option.map_eq_some_iff.mp hexpect
      obtain ⟨pins, hpins⟩ := h before hbefore
      exact ⟨_, hpins.unpin property⟩
  | tailPadding rule =>
    rintro _ ⟨⟩
    obtain ⟨pins, hpins⟩ := exists_heldAs_getD h
    exact ⟨_, hpins.tailPadding rule⟩

theorem Obtainable.exists_heldAs {e : Expectations} (h : Obtainable e) : ∃ pins, HeldAs e pins := by
  induction h with
  | json h =>
    obtain ⟨value, hvalue⟩ := Json.exists_read_of_decode h
    obtain ⟨entries, -, hentries⟩ := bind_eq_ok.mp hvalue
    exact heldAs_of_entries hentries
  | toml h =>
    obtain ⟨entries, hentries⟩ := Toml.exists_read_of_decode h
    exact heldAs_of_entries hentries
  | jsonProfile h hexpect =>
    obtain ⟨value, hvalue⟩ := Json.exists_read_of_decode h
    obtain ⟨_, inner, hinner⟩ := Json.exists_entries_of_profile hvalue hexpect
    exact heldAs_of_entries hinner
  | tomlProfile h hexpect =>
    obtain ⟨entries, hentries⟩ := Toml.exists_read_of_decode h
    obtain ⟨inner, hinner⟩ := exists_entries_of_profileOfEntries hentries hexpect
    exact heldAs_of_entries hinner
  | pinAll abi => exact ⟨_, .pinAll abi⟩
  | edited _ hexpect ih => exact heldAs_applied ih _ hexpect

/-- Pins in the same list and the same tail padding make the same expectations. -/
theorem eq_of_entries {a b : Expectations} (hentries : a.entries = b.entries)
    (htail : a.tailPadding = b.tailPadding) : a = b := by
  refine Expectations.ext (fun property => Option.ext fun value => ?_) htail
  rw [← mem_entries, ← mem_entries, hentries]

end Expectations

namespace Profile

/-- Nothing that is written or reported tells the two profiles apart. -/
structure ReportsAlike (p q : Profile) : Prop where
  toml : p.toToml = q.toToml
  compact : p.toJson.compact = q.toJson.compact
  pretty : p.toJson.pretty = q.toJson.pretty
  mismatches : p.mismatches = q.mismatches
  issues : p.issues = q.issues

theorem ReportsAlike.refl (p : Profile) : ReportsAlike p p := ⟨rfl, rfl, rfl, rfl, rfl⟩

end Profile

namespace Expectations

open Pins Profile

/-- Pins are held in the order of the facts and each once, however the expectations come about. Two
histories that end with the same pins and the same tail padding end with the same expectations, and
profiles with these are written and judged alike. -/
theorem pins_are_canonical :
    (∀ e, Obtainable e → ∃ pins, HeldAs e pins) ∧
    (∀ e pins, HeldAs e pins →
      Ordered pins ∧ (pins.map (·.1)).Nodup ∧ (pins.map (·.1)).Sublist Property.list ∧
        pins = e.entries) ∧
    ∀ a b pins others, HeldAs a pins → HeldAs b others → (∀ pin, pin ∈ pins ↔ pin ∈ others) →
      a.tailPadding = b.tailPadding → pins = others ∧ a = b ∧
        ∀ name abi description,
          ReportsAlike ⟨name, abi, description, some a⟩ ⟨name, abi, description, some b⟩ := by
  have hordered : ∀ {e pins}, HeldAs e pins → Ordered pins := fun h =>
    h.eq_entries ▸ ordered_entries _
  refine ⟨fun e h => h.exists_heldAs, fun e pins h => ?_,
    fun a b pins others ha hb hmem htail => ?_⟩
  · exact ⟨hordered h, nodup_of_ordered (hordered h), (hordered h).sublist_list, h.eq_entries⟩
  · have hpins := (hordered ha).eq_of_mem_iff (hordered hb) hmem
    have heq : a = b := eq_of_entries (by rw [← ha.eq_entries, ← hb.eq_entries, hpins]) htail
    exact ⟨hpins, heq, fun name abi description => heq ▸ .refl _⟩

/-- Pins may come from a document in one order and be made in the other, also twice. -/
theorem pins_of_two_histories_are_one_list :
    ∃ a pins, Json.expectations? "\x7b\"microsoft\": true, \"itanium-family\": false\x7d" = .ok a ∧
      HeldAs a pins ∧
      pins = put (.microsoft, true) (put (.microsoft, false) (put (.itaniumFamily, false) [])) ∧
      ReportsAlike ⟨"demo", .ios, none, some a⟩ ⟨"demo", .ios, none, some
        (setPin .microsoft (some true)
          (setPin .microsoft (some false) (setPin .itaniumFamily (some false) {})))⟩ := by
  have hjson : Json.expectations? "\x7b\"microsoft\": true, \"itanium-family\": false\x7d" =
      .ok (setPin .itaniumFamily (some false) (setPin .microsoft (some true) {})) := by
    decide +kernel
  obtain ⟨held, ordered, alike⟩ := pins_are_canonical
  obtain ⟨pins, hpins⟩ := held _ (.json hjson)
  have hedits := ((HeldAs.empty.pin .itaniumFamily false).pin .microsoft false).pin .microsoft true
  have hmem : pins =
      put (.microsoft, true) (put (.microsoft, false) (put (.itaniumFamily, false) [])) := by
    rw [(ordered _ _ hpins).2.2.2]
    decide
  refine ⟨_, pins, hjson, hpins, hmem, ?_⟩
  exact (alike _ _ _ _ hpins hedits (fun pin => hmem ▸ Iff.rfl) rfl).2.2 _ _ _

end Expectations
end AbiFacts
