import AbiFacts.Toml.Document

/-! # Written TOML

A document to be written has lines of its own and then sections, each under a header with a blank
line before it. Values stand on the line of their key, nested tables too.
-/
namespace AbiFacts.Toml

structure Document where
  lines : Table
  sections : List (String × Table) := []

def Document.table (document : Document) : Table :=
  document.lines ++ document.sections.map fun (key, lines) => (key, .table lines)

/-- A key, bare where it can be. -/
def writeKey (key : String) : List Char :=
  if !key.isEmpty && key.toList.all isBareKeyChar then key.toList else quoteBasic key.toList

def FloatLiteral.write : FloatLiteral → List Char
  | .decimal d =>
    (if d.negative then ['-'] else []) ++ Nat.toDigits 10 d.whole ++
      (if d.fraction.isEmpty then [] else '.' :: d.fraction.flatMap (Nat.toDigits 10)) ++
      'e' :: (toString d.exponent).toList
  | .infinity negative => (if negative then ['-'] else []) ++ ['i', 'n', 'f']
  | .nan => ['n', 'a', 'n']

mutual

def Value.write : Value → List Char
  | .string text => quote text
  | .integer value => (toString value).toList
  | .float value => value.write
  | .boolean true => ['t', 'r', 'u', 'e']
  | .boolean false => ['f', 'a', 'l', 's', 'e']
  | .datetime text => text.toList
  | .array [] => ['[', ']']
  | .array (item :: items) => '[' :: (item.write ++ writeItems items)
  | .table entries => writeTable entries
  | .tables [] => ['[', ']']
  | .tables (item :: items) => '[' :: (writeTable item ++ writeTables items)

/-- The items of an array after the first, and its end. -/
def writeItems : List Value → List Char
  | [] => [']']
  | item :: items => ',' :: ' ' :: (item.write ++ writeItems items)

def writeTables : List (List (String × Value)) → List Char
  | [] => [']']
  | item :: items => ',' :: ' ' :: (writeTable item ++ writeTables items)

def writeTable : List (String × Value) → List Char
  | [] => ['\x7b', '\x7d']
  | (key, value) :: entries =>
    '\x7b' :: ' ' :: (writeKey key ++ [' ', '=', ' '] ++ value.write ++ writeEntries entries)

def writeEntries : List (String × Value) → List Char
  | [] => [' ', '\x7d']
  | (key, value) :: entries =>
    ',' :: ' ' :: (writeKey key ++ [' ', '=', ' '] ++ value.write ++ writeEntries entries)

end

def writeLine (entry : String × Value) : List Char :=
  writeKey entry.1 ++ [' ', '=', ' '] ++ entry.2.write ++ ['\n']

def writeSection (entry : String × Table) : List Char :=
  '[' :: (writeKey entry.1 ++ [']', '\n'] ++ entry.2.flatMap writeLine)

namespace Document

/-- The sections, each after a blank line; the first line of a text is never blank. -/
def writeSections (first : Bool) : List (String × Table) → List Char
  | [] => []
  | entry :: entries =>
    (if first then [] else ['\n']) ++ writeSection entry ++ writeSections false entries

def write (document : Document) : String :=
  String.ofList (document.lines.flatMap writeLine ++
    writeSections document.lines.isEmpty document.sections)

end Document
end AbiFacts.Toml
