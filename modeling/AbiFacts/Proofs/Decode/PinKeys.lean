import AbiFacts.Proofs.Decode.Replacing
import AbiFacts.Proofs.Decode.RepeatedPins

/-! # The key of a pin

A table of expectations with one more pin is decoded as it is without it, but for the fact that is
pinned. Any text that is not the key of a fact is refused, whatever stands around it
(`readsName_pin`).
-/
namespace AbiFacts.Decode

variable {ν : Type} [Format ν] [TreeFormat ν]

open TreeFormat

omit [Format ν] [TreeFormat ν] in
theorem lastValue_append (front back : List (String × ν)) (key : String) :
    lastValue (front ++ back) key = (lastValue back key).or (lastValue front key) := by
  rw [lastValue, List.reverse_append, List.lookup_append]
  rfl

/-- One more pin, unless the fact is pinned again after it. -/
def pinBefore (back : List (String × ν)) (truth : Bool) (property : Property) (e : Expectations) :
    Expectations :=
  if property.key ∈ keys back then e else e.setPin property (some truth)

omit [Format ν] [TreeFormat ν] in
theorem pinBefore_tailPadding (back : List (String × ν)) (truth : Bool) (property : Property)
    (e : Expectations) : (pinBefore back truth property e).tailPadding = e.tailPadding := by
  rw [pinBefore]
  split <;> rfl

variable {room : Nat} {front back : List (String × ν)} {property : Property} {truth : Bool}

theorem isExpectations_pin :
    IsExpectations (front ++ (property.key, ofBoolean truth) :: back) ↔
      IsExpectations (front ++ back) := by
  have hmem : ∀ entry : String × ν, entry ∈ front ++ (property.key, ofBoolean truth) :: back ↔
      entry = (property.key, ofBoolean truth) ∨ entry ∈ front ++ back := by
    intro entry
    simp only [List.mem_append, List.mem_cons]
    exact or_left_comm
  have hkeys : ∀ key, key ∈ keys (front ++ (property.key, (ofBoolean truth : ν)) :: back) ↔
      key = property.key ∨ key ∈ keys (front ++ back) := by
    intro key
    simp only [keys_append, keys_cons, List.mem_append, List.mem_cons]
    exact or_left_comm
  constructor
  · intro h
    exact ⟨fun key hkey => h.known key ((hkeys key).mpr (.inr hkey)),
      fun other value hvalue => h.isBoolean other value ((hmem _).mpr (.inr hvalue)),
      fun value hvalue => h.isRule value ((hmem _).mpr (.inr hvalue))⟩
  · intro h
    refine ⟨fun key hkey => ?_, fun other value hvalue => ?_, fun value hvalue => ?_⟩
    · rcases (hkeys key).mp hkey with rfl | hkey
      · exact .inr ⟨property, rfl⟩
      · exact h.known key hkey
    · rcases (hmem _).mp hvalue with hpin | hvalue
      · exact ⟨truth, congrArg Prod.snd hpin⟩
      · exact h.isBoolean other value hvalue
    · rcases (hmem _).mp hvalue with hpin | hvalue
      · exact absurd (congrArg Prod.fst hpin).symm (key_ne_tailPaddingKey property)
      · exact h.isRule value hvalue

omit [Format ν] [TreeFormat ν] in
theorem count_tailPadding_pin {key : String} (h : key ≠ tailPaddingKey) (value : ν) :
    (keys (front ++ (key, value) :: back)).count tailPaddingKey =
      (keys (front ++ back)).count tailPaddingKey := by
  simp [List.count_append, h]

/-- Tables with and without a pin are decoded alike but for its fact. -/
theorem eq_pinBefore {c e : Expectations}
    (hc : expectationsOfEntries room
      (entriesOf (front ++ (property.key, ofBoolean truth) :: back)) = .ok c)
    (he : expectationsOfEntries room (entriesOf (front ++ back)) = .ok e) :
    c = pinBefore back truth property e := by
  ext other : 1
  · apply Option.map_injective (fun _ _ => ofBoolean_injective (ν := ν))
    have hkey : other.key = property.key → other = property := Named.name_injective other property
    rw [← lastValue_eq_pinned hc, lastValue_append, lastValue_cons, pinBefore]
    by_cases hback : property.key ∈ keys back
    · rw [if_pos hback, ← lastValue_eq_pinned he, lastValue_append]
      by_cases hother : other = property
      · rw [hother, Option.or_of_isSome (isSome_lastValue.mpr hback)]
      · rw [if_neg (mt hkey hother), Option.or_none]
    · rw [if_neg hback]
      by_cases hother : other = property
      · have hnone : lastValue back property.key = none :=
          Option.not_isSome_iff_eq_none.mp (mt isSome_lastValue.mp hback)
        rw [hother, hnone, if_pos rfl, Expectations.setPin_self]
        rfl
      · rw [Expectations.setPin_of_ne hother, ← lastValue_eq_pinned he, lastValue_append,
          if_neg (mt hkey hother), Option.or_none]
  · rcases expectationsOfEntries_passes.mp hc with ⟨_, _, _, hrule, _, rfl⟩
    rcases expectationsOfEntries_passes.mp he with ⟨_, _, honce, hother, _, rfl⟩
    rw [pinBefore_tailPadding, foldl_addPin_tailPadding, foldl_addPin_tailPadding]
    refine Holds.unique honce (hrule.of_mem_iff fun value => ?_) hother
    simp [(key_ne_tailPaddingKey property).symm]

def BooleanIsNoRule (ν : Type) [Format ν] [TreeFormat ν] : Prop :=
  ∀ truth : Bool, Format.isNull (ofBoolean truth : ν) = false ∧
    ∀ rule : TailPadding, Format.choice (ofBoolean truth : ν) ≠ .ok rule

/-- Beside a boolean the keys of facts are taken. Only the key of the tail padding, whose value must
not be a boolean, is refused in another way than the texts that are no keys. -/
theorem readsName_pin (hboolean : BooleanIsNoRule ν) (room : Nat) (text : String) (truth : Bool)
    (front back : List (String × ν)) :
    ReadsName text (expectationsOfEntries room (entriesOf (front ++ back))) (pinBefore back truth)
      (expectationsOfEntries room (entriesOf (front ++ (text, ofBoolean truth) :: back)))
      [tailPaddingKey] := by
  constructor
  · intro c
    constructor
    · intro hc
      rcases exists_expectationsOfEntries.mp ⟨c, hc⟩ with ⟨honce, hpins⟩
      have htext : ∃ property : Property, text = property.key := by
        refine (hpins.known text (mem_keys_of_mem mem_middle)).resolve_left ?_
        rintro rfl
        rcases hpins.isRule _ mem_middle with hnull | ⟨rule, hrule⟩
        · rw [(hboolean truth).1] at hnull
          cases hnull
        · exact (hboolean truth).2 rule hrule
      rcases htext with ⟨property, rfl⟩
      rw [count_tailPadding_pin (key_ne_tailPaddingKey property)] at honce
      rcases exists_expectationsOfEntries.mpr ⟨honce, isExpectations_pin.mp hpins⟩ with ⟨e, he⟩
      exact ⟨property, e, rfl, he, eq_pinBefore hc he⟩
    · rintro ⟨property, e, rfl, he, rfl⟩
      rcases exists_expectationsOfEntries.mp ⟨e, he⟩ with ⟨honce, hpins⟩
      rw [← count_tailPadding_pin (key_ne_tailPaddingKey property) (ofBoolean truth)] at honce
      rcases exists_expectationsOfEntries.mpr ⟨honce, isExpectations_pin.mpr hpins⟩ with ⟨c, hc⟩
      rw [← eq_pinBefore hc he]
      exact hc
  · intro hreserved hno e he
    have hfind : (Named.find? text : Option Property) = none := Named.find?_eq_none_iff.mpr hno
    have hother : (Named.find? text : Option Expectations.Field) = none :=
      Named.find?_eq_none_iff.mpr fun _ => mt List.mem_singleton.mpr hreserved
    have hfits := (fits_of_expectationsOfEntries he).insert hother (keep_ofBoolean room truth)
    rcases expectationsOfEntries_passes.mp he with ⟨_, pins, _, _, hpins, _⟩
    rw [withoutTailPadding, List.filter_append, eq_comm, List.map_eq_append_iff] at hpins
    rcases hpins with ⟨first, _, _, hfirst, _⟩
    have htable : withoutTailPadding (front ++ (text, (ofBoolean truth : ν)) :: back) =
        first.map pinEntry ++ (text, ofBoolean truth) :: withoutTailPadding back := by
      rw [withoutTailPadding, List.filter_append, List.filter_cons_of_pos, hfirst]
      · rfl
      · simpa using hreserved
    exact expectationsOfEntries_eq_error.mpr (.pin hfits htable (.key hfind))

end AbiFacts.Decode
