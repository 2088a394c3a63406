import AbiFacts.Profile.Basic

/-! # Mismatches

A profile has one mismatch for each pin that disagrees with the selected ABI and no other
(`mem_mismatches`), and they come in the order of the facts, tail padding last
(`mismatches_ordered`).
-/
namespace AbiFacts

def Property.place (property : Property) : Nat :=
  Property.list.idxOf property

theorem Property.list_ordered : Property.list.Pairwise fun a b => a.place < b.place := by decide

theorem Property.place_lt (property : Property) : property.place < Property.list.length :=
  List.idxOf_lt_length_of_mem (Named.mem_all property)

/-- The pinned facts come in their order. -/
theorem Expectations.entries_ordered (e : Expectations) :
    e.entries.Pairwise fun a b => a.1.place < b.1.place := by
  refine Property.list_ordered.filterMap _ fun a b hab first hfirst second hsecond => ?_
  obtain ⟨_, _, rfl⟩ := Option.map_eq_some_iff.mp hfirst
  obtain ⟨_, _, rfl⟩ := Option.map_eq_some_iff.mp hsecond
  exact hab

/-- The place of what a mismatch is about: facts by their order, then tail padding. -/
def Mismatch.place : Mismatch → Nat
  | property p _ _ => p.place
  | tailPadding _ _ => Property.list.length

namespace Profile

inductive Disagrees (p : Profile) : Mismatch → Prop where
  | property {e : Expectations} {property : Property} {expected : Bool}
      (hexpect : p.expect = some e) (hpin : e.pinned property = some expected)
      (hne : property.eval p.descriptor ≠ expected) :
      Disagrees p (.property property expected (property.eval p.descriptor))
  | tailPadding {e : Expectations} {expected : TailPadding}
      (hexpect : p.expect = some e) (hpin : e.tailPadding = some expected)
      (hne : p.descriptor.tailPadding ≠ expected) :
      Disagrees p (.tailPadding expected p.descriptor.tailPadding)

/-- The mismatches of expectations against an ABI, facts first. -/
theorem mismatches_of_expect {p : Profile} {e : Expectations} (h : p.expect = some e) :
    p.mismatches =
      (e.entries.filterMap fun pin =>
        if pin.1.eval p.descriptor = pin.2 then none
        else some (.property pin.1 pin.2 (pin.1.eval p.descriptor))) ++
      (e.tailPadding.bind fun expected =>
        if p.descriptor.tailPadding = expected then none
        else some (.tailPadding expected p.descriptor.tailPadding)).toList := by
  rw [mismatches, h]

theorem mem_mismatches {p : Profile} {m : Mismatch} : m ∈ p.mismatches ↔ p.Disagrees m := by
  cases hexpect : p.expect with
  | none =>
    rw [mismatches, hexpect]
    constructor
    · intro hmem
      cases hmem
    · rintro (⟨h, _, _⟩ | ⟨h, _, _⟩) <;> simp [hexpect] at h
  | some e =>
    rw [mismatches_of_expect hexpect, List.mem_append, List.mem_filterMap, Option.mem_toList,
      Option.bind_eq_some_iff]
    constructor
    · rintro (⟨⟨property, expected⟩, hpin, hsome⟩ | ⟨expected, hpin, hsome⟩)
      · obtain ⟨hne, ⟨⟩⟩ := Option.ite_none_left_eq_some.mp hsome
        exact .property hexpect (Expectations.mem_entries.mp hpin) hne
      · obtain ⟨hne, ⟨⟩⟩ := Option.ite_none_left_eq_some.mp hsome
        exact .tailPadding hexpect hpin hne
    · rintro (⟨h, hpin, hne⟩ | ⟨h, hpin, hne⟩)
      · obtain rfl := Option.some.inj (hexpect.symm.trans h)
        exact .inl ⟨_, Expectations.mem_entries.mpr hpin, if_neg hne⟩
      · obtain rfl := Option.some.inj (hexpect.symm.trans h)
        exact .inr ⟨_, hpin, if_neg hne⟩

theorem mismatches_ordered (p : Profile) :
    p.mismatches.Pairwise fun a b => a.place < b.place := by
  cases hexpect : p.expect with
  | none => simp [mismatches, hexpect]
  | some e =>
    rw [mismatches_of_expect hexpect, List.pairwise_append]
    refine ⟨?_, ?_, ?_⟩
    · refine e.entries_ordered.filterMap _ fun a b hab first hfirst second hsecond => ?_
      obtain ⟨_, ⟨⟩⟩ := Option.ite_none_left_eq_some.mp hfirst
      obtain ⟨_, ⟨⟩⟩ := Option.ite_none_left_eq_some.mp hsecond
      exact hab
    · cases Option.bind e.tailPadding _ <;> simp
    · intro first hfirst second hsecond
      obtain ⟨pin, _, hpin⟩ := List.mem_filterMap.mp hfirst
      obtain ⟨_, ⟨⟩⟩ := Option.ite_none_left_eq_some.mp hpin
      obtain ⟨rule, _, hrule⟩ := Option.bind_eq_some_iff.mp (Option.mem_toList.mp hsecond)
      obtain ⟨_, ⟨⟩⟩ := Option.ite_none_left_eq_some.mp hrule
      exact pin.1.place_lt

structure PinsAgree (p : Profile) : Prop where
  pinned : ∀ e, p.expect = some e → ∀ property expected, e.pinned property = some expected →
    property.eval p.descriptor = expected
  tailPadding : ∀ e, p.expect = some e → ∀ expected, e.tailPadding = some expected →
    p.descriptor.tailPadding = expected

theorem mismatches_eq_nil {p : Profile} : p.mismatches = [] ↔ p.PinsAgree := by
  rw [List.eq_nil_iff_forall_not_mem]
  simp only [mem_mismatches]
  constructor
  · intro h
    refine ⟨fun e hexpect property expected hpin => ?_, fun e hexpect expected hpin => ?_⟩
    · exact Decidable.not_not.mp fun hne => h _ (.property hexpect hpin hne)
    · exact Decidable.not_not.mp fun hne => h _ (.tailPadding hexpect hpin hne)
  · rintro h _ (⟨hexpect, hpin, hne⟩ | ⟨hexpect, hpin, hne⟩)
    · exact hne (h.pinned _ hexpect _ _ hpin)
    · exact hne (h.tailPadding _ hexpect _ hpin)

end Profile
end AbiFacts
