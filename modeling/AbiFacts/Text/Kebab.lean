/-! # Kebab case

Words in small letters with hyphens between them.
-/
namespace AbiFacts.Text

/-- A capital begins a new word, and so does an underscore, which is not kept. -/
def kebab (identifier : String) : String :=
  match identifier.toList with
  | [] => ""
  | first :: rest =>
    String.ofList (first.toLower :: rest.flatMap fun c =>
      if c = '_' then ['-'] else if c.isUpper then ['-', c.toLower] else [c])

end AbiFacts.Text
