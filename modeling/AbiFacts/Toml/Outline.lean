import AbiFacts.Toml.Basic

/-! # Building tables

A table grows by headers, which define it or its parents on the way, and by dotted keys, which
define tables of their own. What a table was defined by decides what may still be added to it, and a
key is never defined twice.
-/
namespace AbiFacts.Toml

/-- How a table that is still growing came to be. -/
inductive Origin where
  /-- By a header of its own, as an element of an array, or as a whole document. -/
  | explicit
  /-- By a header below it. -/
  | parent
  /-- By a dotted key. -/
  | dotted
  deriving DecidableEq

/-- What a key of a growing table holds. The last table of an array goes on growing. -/
inductive Node where
  | value (value : Value)
  | table (origin : Origin) (entries : List (String × Node))
  | tables (items : List (List (String × Node)))

abbrev Outline := List (String × Node)

namespace Outline

def put (key : String) (node : Node) (outline : Outline) : Outline :=
  outline.map fun (other, old) => if other = key then (other, node) else (other, old)

/-- Change the table that a path leads to. Tables that are missing on the way are added, by a dotted
key if `dotted`; a dotted key does not enter tables that have a header. -/
def descend (dotted : Bool) (change : Origin → Outline → Option Outline) :
    List String → Origin → Outline → Option Outline
  | [], origin, outline => change origin outline
  | key :: path, _, outline =>
    match outline.lookup key with
    | none => do
      let origin := if dotted then .dotted else .parent
      let inner ← descend dotted change path origin []
      return outline ++ [(key, .table origin inner)]
    | some (.value _) => none
    | some (.table origin inner) =>
      if dotted && origin = .explicit then none
      else do
        let inner ← descend dotted change path origin inner
        return outline.put key (.table origin inner)
    | some (.tables items) => do
      let last ← items.getLast?
      let last ← descend dotted change path .explicit last
      return outline.put key (.tables (items.dropLast ++ [last]))

/-- Add a value under a dotted key. Only a dotted key adds to a table that a dotted key defined, and
it adds to no other. -/
def addValue (path : List String) (key : String) (value : Value) :
    Origin → Outline → Option Outline :=
  descend true (fun origin outline =>
    if (origin = .dotted) = path.isEmpty then none
    else if (outline.lookup key).isSome then none
    else some (outline ++ [(key, .value value)])) path

/-- Define a table by its header. A table that only headers below it have brought about is taken
over, and moves to the end. -/
def addTable (path : List String) (key : String) : Outline → Option Outline :=
  descend false (fun _ outline =>
    match outline.lookup key with
    | none => some (outline ++ [(key, .table .explicit [])])
    | some (.table .parent inner) =>
      some (outline.filter (fun entry => entry.1 != key) ++ [(key, .table .explicit inner)])
    | some _ => none) path .explicit

def addElement (path : List String) (key : String) : Outline → Option Outline :=
  descend false (fun _ outline =>
    match outline.lookup key with
    | none => some (outline ++ [(key, .tables [[]])])
    | some (.tables items) => some (outline.put key (.tables (items ++ [[]])))
    | some _ => none) path .explicit

end Outline

mutual

def Node.finish : Node → Value
  | .value finished => finished
  | .table _ inner => .table (finishEntries inner)
  | .tables items => .tables (finishItems items)

def Node.finishEntries : List (String × Node) → Table
  | [] => []
  | (key, node) :: rest => (key, node.finish) :: finishEntries rest

def Node.finishItems : List (List (String × Node)) → List Table
  | [] => []
  | entries :: rest => finishEntries entries :: finishItems rest

end

end AbiFacts.Toml
