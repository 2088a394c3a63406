import AbiFacts.Files.Path

/-! # Invocations

What the words of a command line ask for. Options may stand anywhere among the words of a command,
with their value as the next word or after an equals sign; after `--` every word is an argument. A
command line that fits no command is rejected as a whole.
-/
namespace AbiFacts.CommandLine

open Files

inductive Command where
  /-- List the known kinds. -/
  | list
  | describe (kind : String) (format : Option String)
  /-- Validate a profile file. -/
  | check (file : Path)
  /-- Write a new profile file. -/
  | new (name abi : String) (output : Option Path)
  /-- List the profile files of a project. -/
  | profiles (directory : Option Path)
  deriving DecidableEq

inductive Invocation where
  | version
  | run (verbosity : Nat) (command : Command)
  deriving DecidableEq

structure Words where
  verbosity : Nat := 0
  options : List (String × String) := []
  arguments : List String := []

def isDashed (word : String) : Bool :=
  match word.toList with
  | '-' :: _ :: _ => true
  | _ => false

def longOption? (word : String) : Option (String × Option String) :=
  match word.toList with
  | '-' :: '-' :: rest =>
    let name := String.ofList (rest.takeWhile (· ≠ '='))
    match rest.dropWhile (· ≠ '=') with
    | [] => some (name, none)
    | _ :: value => some (name, some (String.ofList value))
  | _ => none

/-- How often `v` stands in a word of short options, which holds nothing else. -/
def shortVerbosity? (word : String) : Option Nat :=
  match word.toList with
  | '-' :: flags => if flags.all (· = 'v') then some flags.length else none
  | _ => none

namespace Words

def option? (name : String) (words : Words) : Option String := words.options.lookup name

def addOption (name value : String) (words : Words) : Words :=
  { words with options := words.options ++ [(name, value)] }

/-- Sort the words of a command that has these options, each at most once. -/
def sort? (names : List String) : List String → Words → Option Words
  | [], sorted => some sorted
  | word :: rest, sorted =>
    if word = "--" then some { sorted with arguments := sorted.arguments ++ rest }
    else
      match longOption? word with
      | some ("verbose", none) => sort? names rest { sorted with verbosity := sorted.verbosity + 1 }
      | some (name, value) =>
        if !names.contains name || (sorted.option? name).isSome then none
        else
          match value, rest with
          | some value, rest => sort? names rest (sorted.addOption name value)
          | none, value :: rest =>
            if isDashed value then none else sort? names rest (sorted.addOption name value)
          | none, [] => none
      | none =>
        if isDashed word then
          match shortVerbosity? word with
          | some count => sort? names rest { sorted with verbosity := sorted.verbosity + count }
          | none => none
        else sort? names rest { sorted with arguments := sorted.arguments ++ [word] }

/-- An option that is a path, which must not be empty. -/
def path? (name : String) (words : Words) : Option (Option Path) :=
  match words.option? name with
  | none => some none
  | some "" => none
  | some text => some (some (.ofString text))

end Words

def optionNames : String → List String
  | "describe" => ["format"]
  | "new" => ["abi", "output"]
  | "profiles" => ["dir"]
  | _ => []

def command? (name : String) (words : Words) : Option Command :=
  match name, words.arguments with
  | "list", [] => some .list
  | "describe", [kind] => some (.describe kind (words.option? "format"))
  | "check", [file] => if file = "" then none else some (.check (.ofString file))
  | "new", [name] => do return .new name (← words.option? "abi") (← words.path? "output")
  | "profiles", [] => do return .profiles (← words.path? "dir")
  | _, _ => none

/-- What a word of short options before the command asks for: the version, or more verbosity. -/
def shortFlags? (verbosity : Nat) : List Char → Option (Nat ⊕ Unit)
  | [] => some (.inl verbosity)
  | 'v' :: rest => shortFlags? (verbosity + 1) rest
  | 'V' :: _ => some (.inr ())
  | _ => none

/-- Verbosity that is given with a command takes the place of what stands before it. -/
def invocation? (verbosity : Nat) : List String → Option Invocation
  | [] => none
  | word :: rest =>
    if word = "--version" then some .version
    else if word = "--verbose" then invocation? (verbosity + 1) rest
    else if isDashed word then
      match shortFlags? verbosity (word.toList.drop 1) with
      | some (.inl verbosity) => invocation? verbosity rest
      | some (.inr ()) => some .version
      | none => none
    else do
      let words ← Words.sort? (optionNames word) rest {}
      let command ← command? word words
      return .run (if words.verbosity = 0 then verbosity else words.verbosity) command

def Invocation.ofWords? (words : List String) : Option Invocation := invocation? 0 words

end AbiFacts.CommandLine
