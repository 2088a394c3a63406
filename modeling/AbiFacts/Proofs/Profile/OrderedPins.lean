import AbiFacts.Proofs.Profile.Mismatches
import Mathlib.Data.List.Sort

/-! # Pins in order

Pins may be held in a list with the facts in increasing order, each at most once. Putting a pin in
its place and taking one away keep the list in order, and a list in order is given by its members.
So it is always the list of the pins of some expectations.
-/
namespace AbiFacts

theorem Property.compare_eq (a b : Property) : compare a b = compare a.place b.place := by
  cases a <;> cases b <;> decide

theorem Property.place_injective {a b : Property} (h : a.place = b.place) : a = b := by
  revert h
  cases a <;> cases b <;> decide

/-- Pins that are held one after another, each fact with its value. -/
abbrev Pins := List (Property × Bool)

namespace Pins

/-- Put a pin in its place, over one of the same fact. -/
def put (pin : Property × Bool) : Pins → Pins
  | [] => [pin]
  | first :: rest =>
    match compare pin.1 first.1 with
    | .lt => pin :: first :: rest
    | .eq => pin :: rest
    | .gt => first :: put pin rest

def remove (property : Property) : Pins → Pins
  | [] => []
  | first :: rest =>
    match compare property first.1 with
    | .lt => first :: rest
    | .eq => rest
    | .gt => first :: remove property rest

def collect (pins : List (Property × Bool)) : Pins :=
  pins.foldl (fun held pin => put pin held) []

/-- The facts increase, so none is there twice. -/
def Ordered (pins : Pins) : Prop :=
  pins.Pairwise fun a b => compare a.1 b.1 = .lt

theorem ordered_iff {pins : Pins} :
    Ordered pins ↔ pins.Pairwise fun a b => a.1.place < b.1.place := by
  simp only [Ordered, Property.compare_eq, Nat.compare_eq_lt]

theorem ordered_cons {first : Property × Bool} {rest : Pins} :
    Ordered (first :: rest) ↔ (∀ pin ∈ rest, first.1.place < pin.1.place) ∧ Ordered rest := by
  simp only [ordered_iff, List.pairwise_cons]

theorem nodup_of_ordered {pins : Pins} (h : Ordered pins) : (pins.map (·.1)).Nodup := by
  refine List.pairwise_map.mpr ((ordered_iff.mp h).imp fun hlt heq => ?_)
  exact Nat.ne_of_lt hlt (congrArg Property.place heq)

/-- Lists in order with the same pins are the same list. -/
theorem Ordered.eq_of_mem_iff {a b : Pins} (ha : Ordered a) (hb : Ordered b)
    (h : ∀ pin, pin ∈ a ↔ pin ∈ b) : a = b := by
  have : Std.Antisymm fun a b : Property × Bool => a.1.place < b.1.place :=
    ⟨fun _ _ hab hba => absurd hab (Nat.lt_asymm hba)⟩
  have : Std.Irrefl fun a b : Property × Bool => a.1.place < b.1.place :=
    ⟨fun _ => Nat.lt_irrefl _⟩
  exact (ordered_iff.mp ha).eq_of_mem_iff (ordered_iff.mp hb) h

/-- The facts of a list in order stand in it as they do among all facts. -/
theorem Ordered.sublist_list {pins : Pins} (h : Ordered pins) :
    (pins.map (·.1)).Sublist Property.list := by
  have : Std.Antisymm fun a b : Property => a.place < b.place :=
    ⟨fun _ _ hab hba => absurd hab (Nat.lt_asymm hba)⟩
  have hordered : (pins.map (·.1)).Pairwise fun a b => a.place < b.place :=
    List.pairwise_map.mpr (ordered_iff.mp h)
  refine List.sublist_of_subperm_of_pairwise ?_ hordered Property.list_ordered
  exact List.subperm_of_subset (nodup_of_ordered h) fun property _ => Named.mem_all property

/-! ## Putting and taking away -/

section
variable {pin first : Property × Bool} {property : Property} {rest : Pins}

theorem put_of_lt (h : pin.1.place < first.1.place) :
    put pin (first :: rest) = pin :: first :: rest := by
  rw [put, Property.compare_eq, Nat.compare_eq_lt.mpr h]

theorem put_of_eq (h : pin.1 = first.1) : put pin (first :: rest) = pin :: rest := by
  rw [put, Property.compare_eq, Nat.compare_eq_eq.mpr (congrArg _ h)]

theorem put_of_gt (h : first.1.place < pin.1.place) :
    put pin (first :: rest) = first :: put pin rest := by
  rw [put, Property.compare_eq, Nat.compare_eq_gt.mpr h]

theorem remove_of_lt (h : property.place < first.1.place) :
    remove property (first :: rest) = first :: rest := by
  rw [remove, Property.compare_eq, Nat.compare_eq_lt.mpr h]

theorem remove_of_eq (h : property = first.1) : remove property (first :: rest) = rest := by
  rw [remove, Property.compare_eq, Nat.compare_eq_eq.mpr (congrArg _ h)]

theorem remove_of_gt (h : first.1.place < property.place) :
    remove property (first :: rest) = first :: remove property rest := by
  rw [remove, Property.compare_eq, Nat.compare_eq_gt.mpr h]

/-- A fact stands before another, is the same, or stands after it. -/
theorem place_cases (a b : Property) : a.place < b.place ∨ a = b ∨ b.place < a.place := by
  obtain hlt | heq | hgt := Nat.lt_trichotomy a.place b.place
  · exact .inl hlt
  · exact .inr (.inl (Property.place_injective heq))
  · exact .inr (.inr hgt)

/-- A fact before the first of a list in order is not in the list. -/
theorem Ordered.ne_of_lt (h : Ordered (first :: rest)) (hlt : property.place < first.1.place)
    {other : Property × Bool} (hother : other ∈ first :: rest) : other.1 ≠ property := by
  rintro rfl
  obtain rfl | hother := List.mem_cons.mp hother
  · exact Nat.lt_irrefl _ hlt
  · exact Nat.lt_asymm hlt ((ordered_cons.mp h).1 other hother)

/-- What is left without the fact of the first pin is the rest. -/
theorem Ordered.mem_rest_iff (h : Ordered (first :: rest)) {other : Property × Bool} :
    other ∈ first :: rest ∧ other.1 ≠ first.1 ↔ other ∈ rest := by
  rw [List.mem_cons]
  constructor
  · rintro ⟨rfl | hother, hne⟩
    · exact absurd rfl hne
    · exact hother
  · intro hother
    have hlt := (ordered_cons.mp h).1 other hother
    exact ⟨.inr hother, fun heq => Nat.ne_of_gt hlt (congrArg Property.place heq)⟩

end

theorem mem_remove {pins : Pins} (h : Ordered pins) {property : Property}
    {other : Property × Bool} :
    other ∈ remove property pins ↔ other ∈ pins ∧ other.1 ≠ property := by
  induction pins with
  | nil => simp [remove]
  | cons first rest ih =>
    obtain hlt | rfl | hgt := place_cases property first.1
    · rw [remove_of_lt hlt]
      exact (and_iff_left_of_imp (h.ne_of_lt hlt)).symm
    · rw [remove_of_eq rfl, h.mem_rest_iff]
    · have hfirst : first.1 ≠ property := fun heq => Nat.ne_of_lt hgt (congrArg _ heq)
      rw [remove_of_gt hgt, List.mem_cons, List.mem_cons, ih (ordered_cons.mp h).2, or_and_right]
      exact or_congr_left (and_iff_left_of_imp fun heq => heq ▸ hfirst).symm

theorem mem_put {pins : Pins} (h : Ordered pins) {pin other : Property × Bool} :
    other ∈ put pin pins ↔ other = pin ∨ other ∈ pins ∧ other.1 ≠ pin.1 := by
  induction pins with
  | nil => simp [put]
  | cons first rest ih =>
    obtain hlt | heq | hgt := place_cases pin.1 first.1
    · rw [put_of_lt hlt, List.mem_cons]
      exact or_congr_right (and_iff_left_of_imp (h.ne_of_lt hlt)).symm
    · rw [put_of_eq heq, heq, h.mem_rest_iff, List.mem_cons]
    · have hfirst : first.1 ≠ pin.1 := fun heq => Nat.ne_of_lt hgt (congrArg _ heq)
      rw [put_of_gt hgt, List.mem_cons, List.mem_cons, ih (ordered_cons.mp h).2, or_left_comm,
        or_and_right]
      exact or_congr_right (or_congr_left (and_iff_left_of_imp fun heq => heq ▸ hfirst).symm)

theorem ordered_remove {pins : Pins} (h : Ordered pins) (property : Property) :
    Ordered (remove property pins) := by
  induction pins with
  | nil => exact h
  | cons first rest ih =>
    obtain ⟨hfirst, hrest⟩ := ordered_cons.mp h
    obtain hlt | rfl | hgt := place_cases property first.1
    · rwa [remove_of_lt hlt]
    · rwa [remove_of_eq rfl]
    · rw [remove_of_gt hgt, ordered_cons]
      exact ⟨fun pin hpin => hfirst pin ((mem_remove hrest).mp hpin).1, ih hrest⟩

theorem ordered_put {pins : Pins} (h : Ordered pins) (pin : Property × Bool) :
    Ordered (put pin pins) := by
  induction pins with
  | nil => exact List.pairwise_singleton _ _
  | cons first rest ih =>
    obtain ⟨hfirst, hrest⟩ := ordered_cons.mp h
    obtain hlt | heq | hgt := place_cases pin.1 first.1
    · rw [put_of_lt hlt, ordered_cons]
      refine ⟨fun other hother => ?_, h⟩
      obtain rfl | hother := List.mem_cons.mp hother
      · exact hlt
      · exact Nat.lt_trans hlt (hfirst other hother)
    · rw [put_of_eq heq, ordered_cons, heq]
      exact ⟨hfirst, hrest⟩
    · rw [put_of_gt hgt, ordered_cons]
      refine ⟨fun other hother => ?_, ih hrest⟩
      obtain rfl | ⟨hother, -⟩ := (mem_put hrest).mp hother
      · exact hgt
      · exact hfirst other hother

end Pins

/-! ## The pins of expectations -/

namespace Expectations

open Pins

theorem ordered_entries (e : Expectations) : Ordered e.entries :=
  ordered_iff.mpr e.entries_ordered

/-- A list in order with the pins of expectations lists them as they are listed. -/
theorem eq_entries {e : Expectations} {pins : Pins} (hordered : Ordered pins)
    (h : ∀ property value, (property, value) ∈ pins ↔ e.pinned property = some value) :
    pins = e.entries := by
  refine hordered.eq_of_mem_iff e.ordered_entries fun (property, value) => ?_
  rw [h, mem_entries]

theorem entries_setPin_some (e : Expectations) (property : Property) (value : Bool) :
    (e.setPin property (some value)).entries = put (property, value) e.entries := by
  refine (eq_entries (ordered_put e.ordered_entries _) fun other truth => ?_).symm
  rw [mem_put e.ordered_entries, mem_entries, Prod.mk.injEq]
  by_cases hother : other = property
  · simp [hother, eq_comm]
  · simp [hother, setPin_of_ne hother]

theorem entries_setPin_none (e : Expectations) (property : Property) :
    (e.setPin property none).entries = remove property e.entries := by
  refine (eq_entries (ordered_remove e.ordered_entries _) fun other truth => ?_).symm
  rw [mem_remove e.ordered_entries, mem_entries]
  by_cases hother : other = property
  · simp [hother]
  · simp [hother, setPin_of_ne hother]

/-- The facts of an ABI, collected from its snapshot, are the pins of all of them. -/
theorem entries_pinAll (abi : Descriptor) :
    (pinAll abi).entries = collect abi.snapshot.entries := by
  obtain ⟨kind⟩ := abi
  cases kind <;> decide

end Expectations
end AbiFacts
