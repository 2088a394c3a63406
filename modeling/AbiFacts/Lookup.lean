import AbiFacts.Property

/-! # Reading kinds and facts by name

A name that is not in its table is an error which carries the text as given.
-/
namespace AbiFacts

inductive NameError where
  | unknownKind (text : String)
  | unknownProperty (text : String)
  deriving DecidableEq

def NameError.message : NameError → String
  | unknownKind text => "unknown C++ ABI kind '" ++ text ++ "'"
  | unknownProperty text => "unknown ABI property '" ++ text ++ "'"

/-- The kind that a text names, read leniently. -/
def Kind.ofText (text : String) : Except NameError Kind :=
  match Kind.parse? text with
  | some kind => .ok kind
  | none => .error (.unknownKind text)

/-- The fact whose key is exactly this text. -/
def Property.ofText (text : String) : Except NameError Property :=
  match Named.find? text with
  | some property => .ok property
  | none => .error (.unknownProperty text)

/-- The keys in the order of their facts, equal ones kept. The first key that names no fact is an
error. -/
def Property.sortKeys (keys : List String) : Except NameError (List String) := do
  let properties ← keys.mapM Property.ofText
  return (properties.mergeSort fun a b => (compare a b).isLE).map Property.key

end AbiFacts
