/-! # Closed tables of names

A named type has finitely many values, listed once in their order, and a fixed name for each.
Exact look-up inverts naming (`find?_name`) and accepts nothing else (`find?_eq_some_iff`).
-/
namespace AbiFacts

/-- A finite type whose values are listed in order and written by pairwise different names. -/
class Named (α : Type) where
  all : List α
  name : α → String
  mem_all : ∀ a, a ∈ all
  nodup_all : all.Nodup
  name_injective : ∀ a b, name a = name b → a = b

namespace Named

variable {α : Type} [Named α]

def names (α : Type) [Named α] : List String :=
  (all : List α).map name

def find? (text : String) : Option α :=
  all.find? fun a => name a == text

@[simp] theorem find?_name (a : α) : find? (name a) = some a := by
  have hmem : ∃ b, (all : List α).find? (fun b => name b == name a) = some b := by
    rw [← Option.isSome_iff_exists, List.find?_isSome]
    exact ⟨a, mem_all a, by simp⟩
  obtain ⟨b, hb⟩ := hmem
  have hname : name b = name a := by simpa using List.find?_some hb
  rw [find?, hb, name_injective b a hname]

theorem find?_eq_some_iff {text : String} {a : α} : find? text = some a ↔ text = name a := by
  constructor
  · intro h
    have hname : name a = text := by simpa using List.find?_some h
    exact hname.symm
  · rintro rfl
    exact find?_name a

theorem find?_eq_none_iff {text : String} :
    (find? text : Option α) = none ↔ ∀ a : α, text ≠ name a := by
  constructor
  · rintro h a rfl
    rw [find?_name] at h
    cases h
  · intro h
    cases hfind : (find? text : Option α) with
    | none => rfl
    | some a => exact absurd (find?_eq_some_iff.mp hfind) (h a)

end Named
end AbiFacts
