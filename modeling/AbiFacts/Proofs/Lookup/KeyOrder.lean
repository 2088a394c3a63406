import AbiFacts.Lookup
import AbiFacts.Proofs.Decode.Faults
import Mathlib.Data.List.Perm.Basic

/-! # Keys in order

Keys are put in the order in which their facts are listed. None of them is lost or merged, and how
they stood before makes no difference. If some of the texts are no keys, the error names the first
of these (`keys_are_put_in_order`).
-/
namespace AbiFacts.Property

open Decode (bind_eq_ok bind_eq_error pure_eq_ok)

def IsKey (text : String) : Prop := ∃ property : Property, text = property.key

theorem key_injective : Function.Injective key :=
  Named.name_injective

theorem ofText_eq_ok {text : String} {property : Property} :
    ofText text = .ok property ↔ text = property.key := by
  have hfind : Named.find? text = some property ↔ text = property.key := Named.find?_eq_some_iff
  rw [← hfind, ofText]
  cases (Named.find? text : Option Property) <;> simp

theorem ofText_eq_error {text : String} {e : NameError} :
    ofText text = .error e ↔ ¬ IsKey text ∧ e = .unknownProperty text := by
  have hfind : (Named.find? text : Option Property) = none ↔ ¬ IsKey text := by
    rw [Named.find?_eq_none_iff, IsKey, not_exists]
    rfl
  rw [← hfind, ofText]
  cases (Named.find? text : Option Property) <;> simp [eq_comm]

/-! ## Reading all keys -/

theorem mapM_ofText_eq_ok {keys : List String} {properties : List Property} :
    keys.mapM ofText = .ok properties ↔ keys = properties.map key := by
  induction keys generalizing properties with
  | nil => cases properties <;> simp [pure_eq_ok]
  | cons text keys ih =>
    simp only [List.mapM_cons, bind_eq_ok, ofText_eq_ok, ih, pure_eq_ok]
    constructor
    · rintro ⟨property, rfl, rest, rfl, rfl⟩
      rfl
    · intro h
      cases properties with
      | nil => cases h
      | cons property rest =>
        cases h
        exact ⟨property, rfl, rest, rfl, rfl⟩

theorem exists_eq_map_key {keys : List String} :
    (∃ properties : List Property, keys = properties.map key) ↔ ∀ text ∈ keys, IsKey text := by
  constructor
  · rintro ⟨properties, rfl⟩ text htext
    rcases List.mem_map.mp htext with ⟨property, _, rfl⟩
    exact ⟨property, rfl⟩
  · intro h
    induction keys with
    | nil => exact ⟨[], rfl⟩
    | cons text keys ih =>
      rcases h text (.head _) with ⟨property, rfl⟩
      rcases ih fun other hother => h other (.tail _ hother) with ⟨properties, rfl⟩
      exact ⟨property :: properties, rfl⟩

/-- Reading stops at the first text that is no key. -/
theorem mapM_ofText_eq_error {keys : List String} {e : NameError} :
    keys.mapM ofText = .error e ↔ ∃ front text back, keys = front ++ text :: back ∧
      (∀ other ∈ front, IsKey other) ∧ ¬ IsKey text ∧ e = .unknownProperty text := by
  constructor
  · intro h
    induction keys with
    | nil => cases h
    | cons first keys ih =>
      rw [List.mapM_cons, bind_eq_error] at h
      rcases h with h | ⟨property, hfirst, h⟩
      · rcases ofText_eq_error.mp h with ⟨hno, he⟩
        exact ⟨[], first, keys, rfl, by simp, hno, he⟩
      · rcases bind_eq_error.mp h with h | ⟨_, _, h⟩
        · rcases ih h with ⟨front, text, back, rfl, hfront, hno, he⟩
          refine ⟨first :: front, text, back, rfl, ?_, hno, he⟩
          intro other hother
          rcases List.mem_cons.mp hother with rfl | hother
          · exact ⟨property, ofText_eq_ok.mp hfirst⟩
          · exact hfront other hother
        · cases h
  · rintro ⟨front, text, back, rfl, hfront, hno, rfl⟩
    rcases exists_eq_map_key.mpr hfront with ⟨properties, hproperties⟩
    have hread := mapM_ofText_eq_ok.mpr hproperties
    have hfails := ofText_eq_error.mpr ⟨hno, rfl⟩
    rw [List.mapM_append, hread, List.mapM_cons, hfails]
    rfl

/-! ## Order -/

/-- The derived order of the facts is the order in which they are listed. -/
theorem isLE_compare (a b : Property) :
    (compare a b).isLE = true ↔ list.idxOf a ≤ list.idxOf b := by
  cases a <;> cases b <;> decide

theorem idxOf_injective {a b : Property} (h : list.idxOf a = list.idxOf b) : a = b :=
  (List.idxOf_inj (Named.mem_all a)).mp h

/-- No key comes before that of an earlier fact. -/
def InOrder (keys : List String) : Prop :=
  keys.Pairwise fun a b =>
    ∀ p q : Property, a = p.key → b = q.key → list.idxOf p ≤ list.idxOf q

theorem inOrder_map_key {properties : List Property} :
    InOrder (properties.map key) ↔
      properties.Pairwise fun p q => list.idxOf p ≤ list.idxOf q := by
  rw [InOrder, List.pairwise_map]
  constructor
  · intro h
    exact h.imp fun hkeys => hkeys _ _ rfl rfl
  · intro h
    apply h.imp
    intro p q hpq first second hfirst hsecond
    rw [← key_injective hfirst, ← key_injective hsecond]
    exact hpq

/-- There is one way to put facts in their order. -/
theorem eq_of_perm {a b : List Property} (hperm : a.Perm b)
    (ha : a.Pairwise fun p q => list.idxOf p ≤ list.idxOf q)
    (hb : b.Pairwise fun p q => list.idxOf p ≤ list.idxOf q) : a = b := by
  apply List.Perm.eq_of_pairwise _ ha hb hperm
  intro p q _ _ hpq hqp
  exact idxOf_injective (Nat.le_antisymm hpq hqp)

theorem pairwise_mergeSort (properties : List Property) :
    (properties.mergeSort fun p q => (compare p q).isLE).Pairwise
      fun p q => list.idxOf p ≤ list.idxOf q := by
  apply (List.pairwise_mergeSort _ _ properties).imp
  · intro p q hpq
    exact (isLE_compare p q).mp hpq
  · intro p q r hpq hqr
    rw [isLE_compare] at hpq hqr ⊢
    exact Nat.le_trans hpq hqr
  · intro p q
    simpa [isLE_compare] using Nat.le_total (list.idxOf p) (list.idxOf q)

/-- What ordering keys gives: the same keys in order, and all of them are keys. -/
theorem sortKeys_eq_ok {keys sorted : List String} :
    sortKeys keys = .ok sorted ↔
      (∀ text ∈ keys, IsKey text) ∧ sorted.Perm keys ∧ InOrder sorted := by
  simp only [sortKeys, bind_eq_ok, mapM_ofText_eq_ok, pure_eq_ok]
  constructor
  · rintro ⟨properties, rfl, rfl⟩
    refine ⟨exists_eq_map_key.mp ⟨properties, rfl⟩, ?_, ?_⟩
    · exact (List.mergeSort_perm properties _).map key
    · exact inOrder_map_key.mpr (pairwise_mergeSort properties)
  · rintro ⟨hkeys, hperm, horder⟩
    rcases exists_eq_map_key.mpr hkeys with ⟨properties, rfl⟩
    have hsorted : ∀ text ∈ sorted, IsKey text :=
      fun text htext => hkeys text (hperm.mem_iff.mp htext)
    rcases exists_eq_map_key.mpr hsorted with ⟨others, rfl⟩
    have hothers : others.Perm properties := (List.map_perm_map_iff key_injective).mp hperm
    refine ⟨properties, rfl, congrArg _ (eq_of_perm ?_ ?_ ?_)⟩
    · exact (List.mergeSort_perm properties _).trans hothers.symm
    · exact pairwise_mergeSort properties
    · exact inOrder_map_key.mp horder

theorem exists_sortKeys {keys : List String} (h : ∀ text ∈ keys, IsKey text) :
    ∃ sorted, sortKeys keys = .ok sorted := by
  rcases exists_eq_map_key.mpr h with ⟨properties, hproperties⟩
  rw [sortKeys, mapM_ofText_eq_ok.mpr hproperties]
  exact ⟨_, rfl⟩

/-- Ordering keys succeeds exactly if all texts are keys, and tells the first text that is none
otherwise. What it gives are the same keys, each as often as before, in the order of their facts;
so it gives the same for any other order of the keys, and for what it has given. -/
theorem keys_are_put_in_order (keys : List String) :
    ((∃ sorted, sortKeys keys = .ok sorted) ↔ ∀ text ∈ keys, IsKey text) ∧
    (∀ e, sortKeys keys = .error e ↔ ∃ front text back, keys = front ++ text :: back ∧
      (∀ other ∈ front, IsKey other) ∧ ¬ IsKey text ∧ e = .unknownProperty text) ∧
    ∀ sorted, sortKeys keys = .ok sorted →
      sorted.Perm keys ∧ (∀ text, sorted.count text = keys.count text) ∧ InOrder sorted ∧
      (∀ others : List String, others.Perm keys → sortKeys others = .ok sorted) ∧
      sortKeys sorted = .ok sorted := by
  refine ⟨?_, ?_, ?_⟩
  · constructor
    · rintro ⟨sorted, hsorted⟩
      exact (sortKeys_eq_ok.mp hsorted).1
    · exact exists_sortKeys
  · intro e
    rw [sortKeys, bind_eq_error, mapM_ofText_eq_error]
    apply or_iff_left
    rintro ⟨properties, _, hno⟩
    cases hno
  · intro sorted hsorted
    rcases sortKeys_eq_ok.mp hsorted with ⟨hkeys, hperm, horder⟩
    have hothers : ∀ others : List String, others.Perm keys → sortKeys others = .ok sorted := by
      intro others hother
      apply sortKeys_eq_ok.mpr
      exact ⟨fun text htext => hkeys text (hother.mem_iff.mp htext), hperm.trans hother.symm,
        horder⟩
    exact ⟨hperm, fun text => hperm.count_eq text, horder, hothers, hothers sorted hperm⟩

/-- A key that stands twice stays twice, and of two texts that are no keys the first is named. -/
theorem repeated_keys_are_put_in_order :
    sortKeys ["microsoft", "itanium-family", "microsoft"] =
      .ok ["itanium-family", "microsoft", "microsoft"] ∧
    sortKeys ["microsoft", "microsoft", "itanium-family"] =
      .ok ["itanium-family", "microsoft", "microsoft"] ∧
    sortKeys ["microsoft", "Microsoft", "vtable-layout"] =
      .error (.unknownProperty "Microsoft") := by
  have hmicrosoft : IsKey "microsoft" := ⟨.microsoft, rfl⟩
  have hitanium : IsKey "itanium-family" := ⟨.itaniumFamily, rfl⟩
  have hsorted : sortKeys ["microsoft", "itanium-family", "microsoft"] =
      .ok ["itanium-family", "microsoft", "microsoft"] := by
    apply sortKeys_eq_ok.mpr
    refine ⟨?_, by decide, ?_⟩
    · simp [hmicrosoft, hitanium]
    · show InOrder ([itaniumFamily, microsoft, microsoft].map key)
      exact inOrder_map_key.mpr (by decide)
  rcases keys_are_put_in_order ["microsoft", "itanium-family", "microsoft"] with ⟨_, _, hall⟩
  rcases hall _ hsorted with ⟨_, _, _, hothers, _⟩
  rcases keys_are_put_in_order ["microsoft", "Microsoft", "vtable-layout"] with ⟨_, hfails, _⟩
  refine ⟨hsorted, hothers _ (by decide), (hfails _).mpr ?_⟩
  refine ⟨["microsoft"], "Microsoft", ["vtable-layout"], rfl, ?_, ?_, rfl⟩
  · simpa using hmicrosoft
  · rintro ⟨property, hkey⟩
    revert hkey
    cases property <;> decide

end AbiFacts.Property
