import AbiFacts.Text.Lossy

/-! # Paths

A path is a sequence of bytes in which slashes separate names. Paths are kept as they were given;
only their shown form is text.
-/
namespace AbiFacts.Files

abbrev Name := List UInt8

def Name.ofString (text : String) : Name := Text.toBytes text

def Name.text? (name : Name) : Option String := Text.ofBytes? name

def maxName : Nat := 255

structure Path where
  bytes : List UInt8
  deriving DecidableEq

namespace Path

def slash : UInt8 := 0x2F

def ofString (text : String) : Path := ⟨Text.toBytes text⟩

def shown (path : Path) : String := Text.lossy path.bytes

def isAbsolute (path : Path) : Bool := path.bytes.head? == some slash

def endsInSlash (path : Path) : Bool := path.bytes.getLast? == some slash

/-- What stands between the slashes, empty parts included. -/
def split : List UInt8 → List Name
  | [] => [[]]
  | byte :: rest =>
    if byte = slash then [] :: split rest
    else
      match split rest with
      | part :: parts => (byte :: part) :: parts
      | [] => [[byte]]

def names (path : Path) : List Name :=
  (split path.bytes).filter (· ≠ [])

/-- The names that a path leads through, with an empty one after them where the path ends in a
slash: there only a directory fits. -/
def steps (path : Path) : List Name :=
  path.names ++ if path.endsInSlash then [[]] else []

/-- The entry with this name in a directory. A path from the root stays as it is. -/
def join (directory path : Path) : Path :=
  if path.isAbsolute then path
  else if directory.bytes.isEmpty || directory.endsInSlash then ⟨directory.bytes ++ path.bytes⟩
  else ⟨directory.bytes ++ slash :: path.bytes⟩

def dot : Name := [0x2E]

def dotDot : Name := [0x2E, 0x2E]

/-- Parts without those at the end that lead nowhere. -/
def trimmed (parts : List Name) : List Name :=
  (parts.reverse.dropWhile fun part => part = [] || part = dot).reverse

def joined (parts : List Name) : List UInt8 :=
  [slash].intercalate parts

/-- The path without its last name. The root has no parent, nor has the empty path. -/
def parent? (path : Path) : Option Path :=
  let parts := split path.bytes
  match parts with
  | [] :: rest@(_ :: _) =>
    match trimmed rest with
    | [] => none
    | rest => some ⟨slash :: joined (trimmed rest.dropLast)⟩
  | [0x2E] :: rest =>
    match trimmed rest with
    | [] => some ⟨[]⟩
    | rest => some ⟨joined (dot :: trimmed rest.dropLast)⟩
  | parts =>
    match trimmed parts with
    | [] => none
    | parts => some ⟨joined (trimmed parts.dropLast)⟩

end Path

def Name.isProper (name : Name) : Bool :=
  name ≠ [] && name ≠ Path.dot && name ≠ Path.dotDot && !name.contains Path.slash &&
    !name.contains 0 && name.length ≤ maxName

end AbiFacts.Files
