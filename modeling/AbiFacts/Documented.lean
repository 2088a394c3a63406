import AbiFacts.Named

/-! # Names in documents

Documents have a table of names of their own, and readers and writers of documents use this table
alone. It agrees with the names by which the values are known elsewhere, so looking a text up in
either table is the same (`find?_eq`).
-/
namespace AbiFacts

class Documented (α : Type) extends Named α where
  documentName : α → String
  documentName_eq : ∀ a, documentName a = name a

namespace Documented

variable {α : Type} [Documented α]

def documentNames (α : Type) [Documented α] : List String :=
  (Named.all : List α).map documentName

/-- The value that documents write as this text. -/
def find? (text : String) : Option α :=
  Named.all.find? fun a => documentName a == text

theorem documentName_eq_name : (documentName : α → String) = Named.name :=
  funext documentName_eq

theorem documentNames_eq : documentNames α = Named.names α := by
  rw [documentNames, documentName_eq_name, Named.names]

theorem find?_eq (text : String) : (find? text : Option α) = Named.find? text := by
  rw [find?, documentName_eq_name, Named.find?]

@[simp] theorem find?_name (a : α) : find? (Named.name a) = some a :=
  (find?_eq _).trans (Named.find?_name a)

end Documented
end AbiFacts
