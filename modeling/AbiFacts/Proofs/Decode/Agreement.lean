import AbiFacts.Proofs.Decode.Profiles
import Mathlib.Data.List.Forall2

/-! # Decoding in two formats

Two tables in different formats, entry by entry of the same keys and with values that each reader
takes alike, are decoded alike: to the same profile or to a failure each. Formats differ in how they
refuse a value that names nothing, so failures are the same only under a condition that excludes
such values; it is carried along as `strict`.
-/
namespace AbiFacts.Decode

/-! ## Outcomes -/

section
variable {strict : Prop} {α β γ δ : Type} {related : α → β → Prop}

/-- Two outcomes with related results, or two failures, for the same misfit if `strict` holds. -/
inductive Agree (strict : Prop) (related : α → β → Prop) :
    Except Failure α → Except Failure β → Prop where
  | ok {a : α} {b : β} (h : related a b) : Agree strict related (.ok a) (.ok b)
  | error {failure other : Failure}
      (h : strict → ∃ misfit, failure = .data misfit ∧ other = .data misfit) :
      Agree strict related (.error failure) (.error other)

namespace Agree

theorem misfit (misfit : DataError) :
    Agree strict related (.error (.data misfit)) (.error (.data misfit)) :=
  .error fun _ => ⟨misfit, rfl, rfl⟩

theorem bind {x : Except Failure α} {y : Except Failure β} (h : Agree strict related x y)
    {also : γ → δ → Prop} {f : α → Except Failure γ} {g : β → Except Failure δ}
    (hmore : ∀ a b, related a b → Agree strict also (f a) (g b)) :
    Agree strict also (x >>= f) (y >>= g) := by
  cases h with
  | ok h => exact hmore _ _ h
  | error h => exact .error h

theorem map {x : Except Failure α} {y : Except Failure β} (h : Agree strict related x y)
    {also : γ → δ → Prop} {f : α → γ} {g : β → δ}
    (hmore : ∀ a b, related a b → also (f a) (g b)) : Agree strict also (f <$> x) (g <$> y) := by
  cases h with
  | ok h => exact .ok (hmore _ _ h)
  | error h => exact .error h

/-- Loops over related lists agree if each pair of steps does. -/
theorem foldlM {entry : γ → δ → Prop} {f : α → γ → Except Failure α} {g : β → δ → Except Failure β}
    (hstep : ∀ a b c d, related a b → entry c d → Agree strict related (f a c) (g b d))
    {cs : List γ} {ds : List δ} (hentries : List.Forall₂ entry cs ds) {a : α} {b : β}
    (h : related a b) : Agree strict related (cs.foldlM f a) (ds.foldlM g b) := by
  induction hentries generalizing a b with
  | nil => exact .ok h
  | cons hentry _ ih =>
    rw [List.foldlM_cons, List.foldlM_cons]
    exact (hstep _ _ _ _ h hentry).bind fun _ _ => ih

theorem ok_iff {x y : Except Failure α} (h : Agree strict Eq x y) (a : α) :
    x = .ok a ↔ y = .ok a := by
  cases h with
  | ok h => rw [h]
  | error h => simp

theorem same_misfit {x : Except Failure α} {y : Except Failure β} (h : Agree strict related x y)
    (hstrict : strict) {failure : Failure} (hfailure : x = .error failure) :
    ∃ misfit, failure = .data misfit ∧ y = .error (.data misfit) := by
  cases h with
  | ok h => cases hfailure
  | error h =>
    obtain ⟨misfit, hleft, rfl⟩ := h hstrict
    exact ⟨misfit, (Except.error.inj hfailure).symm.trans hleft, rfl⟩

end Agree

theorem agree_named {φ : Type} [Documented φ] (text : String) :
    Agree strict Eq (named text : Except Failure φ) (named text) := by
  rw [named]
  split
  · exact .ok rfl
  · exact .misfit _

end

section
variable {ν μ : Type} [Format ν] [Format μ] {strict : Prop} {room other : Nat}

/-- Where neither value stands for an absent one, optional values are read as values. -/
theorem agree_optional {α : Type} {decode : ν → Except Failure α} {decode' : μ → Except Failure α}
    {value : ν} {value' : μ} (hnull : Format.isNull value = false)
    (hnull' : Format.isNull value' = false) (h : Agree strict Eq (decode value) (decode' value')) :
    Agree strict Eq (optional decode value) (optional decode' value') := by
  rw [optional, optional, hnull, hnull']
  exact h.map fun _ _ => congrArg some

/-! ## Expectations -/

structure PinsAlike (strict : Prop) (room other : Nat) (a : String × ν) (b : String × μ) : Prop where
  key : a.1 = b.1
  kept : Format.keep room a.2 = .ok ()
  kept' : Format.keep other b.2 = .ok ()
  rule : a.1 = tailPaddingKey →
    Agree strict Eq (optional Format.choice a.2 : Except Failure (Option TailPadding))
      (optional Format.choice b.2)
  boolean : Agree strict Eq (Format.boolean a.2) (Format.boolean b.2)

variable {table : List (String × ν)} {table' : List (String × μ)}

theorem separate_agree (h : List.Forall₂ (PinsAlike strict room other) table table')
    (tail : Option (Option TailPadding)) :
    Agree strict
      (fun a b => a.1 = b.1 ∧ List.Forall₂ (PinsAlike strict room other) a.2 b.2)
      (separate room tail (entriesOf table)) (separate other tail (entriesOf table')) := by
  induction h generalizing tail with
  | nil => exact .ok ⟨rfl, .nil⟩
  | @cons a b table table' halike _ ih =>
    obtain ⟨key, value⟩ := a
    obtain ⟨key', value'⟩ := b
    obtain rfl : key = key' := halike.key
    rw [entriesOf_cons, entriesOf_cons, separate, separate,
      Expectations.Field.documentName_tailPadding]
    by_cases hkey : key = tailPaddingKey
    · rw [if_pos hkey, if_pos hkey]
      split
      · exact .misfit _
      · refine (halike.rule hkey).bind ?_
        rintro rule _ rfl
        exact ih (some rule)
    · rw [if_neg hkey, if_neg hkey, halike.kept, halike.kept']
      refine (ih tail).bind fun a b hab => .ok ⟨hab.1, ?_⟩
      exact .cons halike hab.2

theorem pin_agree {a : String × ν} {b : String × μ} (h : PinsAlike strict room other a b)
    (e : Expectations) : Agree strict Eq (pin e a) (pin e b) := by
  rw [pin, pin, h.key]
  refine (agree_named b.1).bind ?_
  rintro property _ rfl
  refine h.boolean.bind ?_
  rintro truth _ rfl
  exact .ok rfl

theorem expectationsOfEntries_agree
    (h : List.Forall₂ (PinsAlike strict room other) table table') :
    Agree strict Eq (expectationsOfEntries room (entriesOf table))
      (expectationsOfEntries other (entriesOf table')) := by
  rw [expectationsOfEntries, expectationsOfEntries]
  refine (separate_agree h none).bind ?_
  rintro ⟨rule, others⟩ ⟨_, others'⟩ ⟨rfl, hothers⟩
  refine Agree.foldlM ?_ hothers rfl
  rintro e _ a b rfl halike
  exact pin_agree halike e

theorem expectations_agree [TreeFormat ν] [TreeFormat μ]
    (h : List.Forall₂ (PinsAlike strict (room - 1) (other - 1)) table table') :
    Agree strict Eq (expectations room (TreeFormat.ofTable table))
      (expectations other (TreeFormat.ofTable table')) := by
  rw [expectations_ofTable, expectations_ofTable]
  exact expectationsOfEntries_agree h

/-! ## Profiles -/

structure FieldsAlike (strict : Prop) (room other : Nat) (a : String × ν) (b : String × μ) :
    Prop where
  key : a.1 = b.1
  decode : ∀ field : Profile.Field, a.1 = Named.name field →
    Agree strict Eq ((ProfileFields.record room).decode field a.2)
      ((ProfileFields.record other).decode field b.2)

namespace ProfileFields

theorem fieldFor_agree (fields : ProfileFields) (key : String) :
    Agree strict (fun field field' => field = field' ∧ key = Named.name field)
      (fields.fieldFor key) (fields.fieldFor key) := by
  rw [fieldFor]
  split
  · exact .misfit _
  · next field hfind =>
    split
    · exact .misfit _
    · exact .ok ⟨rfl, Named.find?_eq_some_iff.mp hfind⟩

theorem set_eq (fields : ProfileFields) (value : ν) (field : Profile.Field) :
    fields.set room value field =
      (record room).put fields field <$> (record room).decode field value := by
  cases field <;> rfl

theorem step_agree {a : String × ν} {b : String × μ} (h : FieldsAlike strict room other a b)
    (fields : ProfileFields) :
    Agree strict Eq (step room fields (.entry a.1 a.2)) (step other fields (.entry b.1 b.2)) := by
  rw [step, step, ← h.key]
  refine (fieldFor_agree fields a.1).bind ?_
  rintro field _ ⟨rfl, hfield⟩
  rw [set_eq, set_eq]
  refine (h.decode field hfield).map ?_
  rintro part _ rfl
  rfl

theorem finish_agree (fields : ProfileFields) : Agree strict Eq fields.finish fields.finish := by
  rw [finish]
  split
  · exact .misfit _
  · exact .misfit _
  · exact .ok rfl

end ProfileFields

/-- Tables whose entries are read alike are decoded alike. -/
theorem profileOfEntries_agree (h : List.Forall₂ (FieldsAlike strict room other) table table') :
    Agree strict Eq (profileOfEntries room (entriesOf table))
      (profileOfEntries other (entriesOf table')) := by
  have hstep : ∀ (fields fields' : ProfileFields) (a : String × ν) (b : String × μ),
      fields = fields' → FieldsAlike strict room other a b →
      Agree strict Eq (ProfileFields.step room fields (.entry a.1 a.2))
        (ProfileFields.step other fields' (.entry b.1 b.2)) := by
    rintro fields _ a b rfl halike
    exact ProfileFields.step_agree halike fields
  rw [profileOfEntries, profileOfEntries, entriesOf, entriesOf, List.foldlM_map, List.foldlM_map]
  refine (Agree.foldlM hstep h rfl).bind ?_
  rintro fields _ rfl
  exact fields.finish_agree

end
end AbiFacts.Decode
