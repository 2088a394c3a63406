import AbiFacts.Files.Resolve

/-! # Access to files

The few operations on files that the program needs, as a class of monads. File trees are one
instance: operations read and change a tree, from a current directory.
-/
namespace AbiFacts.Files

/-- An entry of a directory, links not followed. -/
structure DirectoryEntry where
  name : Name
  isFile : Bool
  deriving DecidableEq

class FileAccess (m : Type → Type) where
  currentDirectory : m Path
  pathExists : Path → m Bool
  isDirectory : Path → m Bool
  read : Path → m (Except SystemError (List UInt8))
  list : Path → m (Except SystemError (List DirectoryEntry))
  makeDirectory : Path → m (Except SystemError Unit)
  /-- Write a whole file, over one that is there. -/
  write : Path → List UInt8 → m (Except SystemError Unit)

namespace Tree

def pathExists (tree : Tree) (current : Location) (path : Path) : Bool :=
  match tree.resolve .look current path with
  | .ok (.present _ _) => true
  | _ => false

def isDirectory (tree : Tree) (current : Location) (path : Path) : Bool :=
  match tree.resolve .look current path with
  | .ok (.present _ .directory) => true
  | _ => false

def read (tree : Tree) (current : Location) (path : Path) : Except SystemError (List UInt8) :=
  match tree.resolve .look current path with
  | .ok (.present _ (.file content)) => .ok content
  | .ok (.present _ _) => .error .isDirectory
  | .ok (.absent _) => .error .notFound
  | .error e => .error e

def list (tree : Tree) (current : Location) (path : Path) :
    Except SystemError (List DirectoryEntry) :=
  match tree.resolve .look current path with
  | .ok (.present location .directory) =>
    .ok ((tree.children location).map fun (name, node) =>
      ⟨name, match node with | .file _ => true | _ => false⟩)
  | .ok (.present _ _) => .error .notDirectory
  | .ok (.absent _) => .error .notFound
  | .error e => .error e

def makeDirectory (tree : Tree) (current : Location) (path : Path) :
    Except SystemError Unit × Tree :=
  match tree.resolve .make current path with
  | .ok (.absent location) => (.ok (), tree.put location .directory)
  | .ok (.present _ _) => (.error .alreadyExists, tree)
  | .error e => (.error e, tree)

def write (tree : Tree) (current : Location) (path : Path) (content : List UInt8) :
    Except SystemError Unit × Tree :=
  match tree.resolve .write current path with
  | .ok (.absent location) | .ok (.present location (.file _)) =>
    (.ok (), tree.put location (.file content))
  | .ok (.present _ _) => (.error .isDirectory, tree)
  | .error e => (.error e, tree)

end Tree

def Location.path (location : Location) : Path :=
  ⟨if location.isEmpty then [Path.slash]
    else location.flatMap fun name => Path.slash :: name⟩

/-- Computations on a file tree, from a current directory. -/
abbrev InTree := ReaderT Location (StateM Tree)

namespace InTree

private def asks {α : Type} (f : Tree → Location → α) : InTree α :=
  fun current tree => (f tree current, tree)

private def changes {α : Type} (f : Tree → Location → α × Tree) : InTree α :=
  fun current tree => f tree current

instance : FileAccess InTree where
  currentDirectory := asks fun _ current => current.path
  pathExists path := asks fun tree current => tree.pathExists current path
  isDirectory path := asks fun tree current => tree.isDirectory current path
  read path := asks fun tree current => tree.read current path
  list path := asks fun tree current => tree.list current path
  makeDirectory path := changes fun tree current => tree.makeDirectory current path
  write path content := changes fun tree current => tree.write current path content

end InTree

section
variable {m : Type → Type} [Monad m] [FileAccess m]

/-- Make a directory unless it is there, its parents first; `depth` bounds their number. -/
def makeParents : Nat → Path → m (Except SystemError Unit)
  | 0, _ => return .error (.other "failed to create whole tree")
  | depth + 1, path => do
    if path.bytes = [] then return .ok ()
    match ← FileAccess.makeDirectory path with
    | .ok () => return .ok ()
    | .error .notFound =>
      match path.parent? with
      | none => return .error (.other "failed to create whole tree")
      | some parent =>
        match ← makeParents depth parent with
        | .error e => return .error e
        | .ok () => settle path (← FileAccess.makeDirectory path)
    | .error e => settle path (.error e)
where
  /-- A directory that is there already is as good as a new one. -/
  settle (path : Path) (made : Except SystemError Unit) : m (Except SystemError Unit) := do
    match made with
    | .ok () => return .ok ()
    | .error e => if ← FileAccess.isDirectory path then return .ok () else return .error e

def makeDirectories (path : Path) : m (Except SystemError Unit) :=
  makeParents (path.bytes.length + 1) path

end
end AbiFacts.Files
