import AbiFacts.Files.Tree

/-! # Finding paths in a tree

A path is followed name by name from the root or the current directory: `.` stays, `..` goes up, and
links are followed, up to a limit. The last name of a path may be missing from its directory, so
that something can be made there.
-/
namespace AbiFacts.Files

/-- Where a path leads: to something, or to a place in a directory where there is nothing. -/
inductive Place where
  | present (location : Location) (node : Node)
  | absent (location : Location)
  deriving DecidableEq

inductive Purpose where
  /-- To look at what is there. Links are followed to the end. -/
  | look
  /-- To make a directory. A link or a slash at the end is left aside. -/
  | make
  /-- To write a file. Links are followed to the end, and nothing that ends in a slash is a file. -/
  | write
  deriving DecidableEq

def maxPath : Nat := 4095

def maxLinks : Nat := 40

namespace Tree

/-- Follow names from a location; an empty name stays there. A link is left to `expand`, which is
given the directory that its target starts from and the names that remain. -/
def walk (tree : Tree) (purpose : Purpose)
    (expand : Location → List Name → Except SystemError Place) :
    List Name → Location → Except SystemError Place
  | [], location =>
    match tree.lookup location with
    | some node => .ok (.present location node)
    | none => .error .notFound
  | name :: names, location =>
    match tree.lookup location with
    | some .directory =>
      if name = [] ∨ name = Path.dot then tree.walk purpose expand names location
      else if name = Path.dotDot then tree.walk purpose expand names location.dropLast
      else if purpose = .write ∧ names = [[]] then .error .isDirectory
      else if name.length > maxName then .error .nameTooLong
      else
        match tree.lookup (location ++ [name]) with
        | none => if names.isEmpty then .ok (.absent (location ++ [name])) else .error .notFound
        | some (.link target) =>
          if purpose = .make ∧ names = [] then .ok (.present (location ++ [name]) (.link target))
          else expand (if target.isAbsolute then [] else location) (target.steps ++ names)
        | some _ => tree.walk purpose expand names (location ++ [name])
    | _ => .error .notDirectory

def follow (tree : Tree) (purpose : Purpose) :
    Nat → Location → List Name → Except SystemError Place
  | 0, location, names => tree.walk purpose (fun _ _ => .error .tooManyLinks) names location
  | links + 1, location, names => tree.walk purpose (tree.follow purpose links) names location

def resolve (tree : Tree) (purpose : Purpose) (current : Location) (path : Path) :
    Except SystemError Place :=
  if path.bytes.contains 0 then .error .zeroByte
  else if path.bytes = [] then .error .notFound
  else if path.bytes.length > maxPath then .error .nameTooLong
  else
    tree.follow purpose maxLinks (if path.isAbsolute then [] else current)
      (if purpose = .make then path.names else path.steps)

end Tree
end AbiFacts.Files
