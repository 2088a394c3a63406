import AbiFacts.Snapshot

/-! # Expectations

The facts that a profile relies on: a value for some of the boolean facts, and perhaps a rule for
tail padding. Pins have no order of their own; `entries` lists them in the order of the facts.
-/
namespace AbiFacts

structure Expectations where
  pinned : Property → Option Bool := fun _ => none
  tailPadding : Option TailPadding := none

namespace Expectations

@[ext] theorem ext {a b : Expectations} (pinned : ∀ property, a.pinned property = b.pinned property)
    (tailPadding : a.tailPadding = b.tailPadding) : a = b := by
  obtain ⟨_, _⟩ := a
  obtain ⟨_, _⟩ := b
  obtain rfl := funext pinned
  simp_all

instance : DecidableEq Expectations := fun a b =>
  if h : Property.list.map a.pinned = Property.list.map b.pinned ∧ a.tailPadding = b.tailPadding
  then isTrue (ext (fun property => List.map_inj_left.mp h.1 property (Named.mem_all property)) h.2)
  else isFalse (by rintro rfl; exact h ⟨rfl, rfl⟩)

def entries (expectations : Expectations) : List (Property × Bool) :=
  Property.list.filterMap fun property =>
    (expectations.pinned property).map fun value => (property, value)

def isEmpty (expectations : Expectations) : Bool :=
  expectations.entries.isEmpty && expectations.tailPadding.isNone

/-- Pin a fact to a value, or take its pin away. -/
def setPin (property : Property) (value : Option Bool) (expectations : Expectations) :
    Expectations :=
  { expectations with
    pinned := fun other => if other = property then value else expectations.pinned other }

def pinAll (abi : Descriptor) : Expectations where
  pinned property := some (abi.snapshot.value property)
  tailPadding := some abi.snapshot.tailPadding

@[simp] theorem pinned_pinAll (abi : Descriptor) (property : Property) :
    (pinAll abi).pinned property = some (property.eval abi) :=
  congrArg some (abi.value_snapshot property)

@[simp] theorem setPin_self (property : Property) (value : Option Bool) (e : Expectations) :
    (e.setPin property value).pinned property = value := by
  simp [setPin]

theorem setPin_of_ne {property other : Property} (h : other ≠ property) (value : Option Bool)
    (e : Expectations) : (e.setPin property value).pinned other = e.pinned other := by
  simp [setPin, h]

@[simp] theorem mem_entries {e : Expectations} {property : Property} {value : Bool} :
    (property, value) ∈ e.entries ↔ e.pinned property = some value := by
  simp only [entries, List.mem_filterMap, Option.map_eq_some_iff, Prod.mk.injEq]
  constructor
  · rintro ⟨_, _, _, h, rfl, rfl⟩
    exact h
  · exact fun h => ⟨property, Named.mem_all property, value, h, rfl, rfl⟩

end Expectations
end AbiFacts
