import AbiFacts.Json.Basic
import AbiFacts.Json.Text

/-! # Written JSON

One writer with two layouts: compact, and pretty with two spaces for each level.
-/
namespace AbiFacts.Json

/-- What stands before an item at some depth, and between a key and its value. -/
structure Layout where
  lineBreak : Nat → List Char
  colon : List Char

def Layout.compact : Layout := ⟨fun _ => [], [':']⟩

def Layout.pretty : Layout := ⟨fun depth => '\n' :: List.replicate (2 * depth) ' ', [':', ' ']⟩

def Number.written : Number → List Char
  | .integer negative magnitude => (if negative then ['-'] else []) ++ Nat.toDigits 10 magnitude
  | .decimal d =>
    (if d.negative then ['-'] else []) ++ Nat.toDigits 10 d.whole ++
      (if d.fraction.isEmpty then [] else '.' :: d.fraction.flatMap (Nat.toDigits 10)) ++
      'e' :: (toString d.exponent).toList

mutual

def write (layout : Layout) (depth : Nat) : Json → List Char
  | null => ['n', 'u', 'l', 'l']
  | boolean true => ['t', 'r', 'u', 'e']
  | boolean false => ['f', 'a', 'l', 's', 'e']
  | number value => value.written
  | string text => quote text
  | array [] => ['[', ']']
  | array (item :: items) =>
    '[' :: (layout.lineBreak (depth + 1) ++ write layout (depth + 1) item ++
      writeItems layout depth items)
  | object [] => ['{', '}']
  | object ((key, value) :: entries) =>
    '{' :: (layout.lineBreak (depth + 1) ++ quote key ++ layout.colon ++
      write layout (depth + 1) value ++ writeEntries layout depth entries)

def writeItems (layout : Layout) (depth : Nat) : List Json → List Char
  | [] => layout.lineBreak depth ++ [']']
  | item :: items =>
    ',' :: (layout.lineBreak (depth + 1) ++ write layout (depth + 1) item ++
      writeItems layout depth items)

def writeEntries (layout : Layout) (depth : Nat) : List (String × Json) → List Char
  | [] => layout.lineBreak depth ++ ['}']
  | (key, value) :: entries =>
    ',' :: (layout.lineBreak (depth + 1) ++ quote key ++ layout.colon ++
      write layout (depth + 1) value ++ writeEntries layout depth entries)

end

def compact (value : Json) : String :=
  String.ofList (write .compact 0 value)

def pretty (value : Json) : String :=
  String.ofList (write .pretty 0 value)

end AbiFacts.Json
