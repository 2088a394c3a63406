import AbiFacts.Toml.Numeral
import AbiFacts.Toml.Outline
import AbiFacts.Toml.Text
import AbiFacts.Toml.Time

/-! # TOML documents

A document is a sequence of headers and of keys with values. Its whole text is read before anything
is made of it: a text that breaks the grammar anywhere has no table.
-/
namespace AbiFacts.Toml

/-- The limit on the parts of a dotted key and on the nesting of values. -/
def limit : Nat := 80

/-! ## Keys -/

def isBareKeyChar (c : Char) : Bool := c.isAlphanum || c == '_' || c == '-'

/-- One part of a key: a string on one line, or bare characters. -/
def keyPart? (text : List Char) : Option (String × List Char) :=
  match text with
  | '"' :: _ | '\'' :: _ => lineString? text
  | _ =>
    match text.takeWhile isBareKeyChar with
    | [] => none
    | part => some (String.ofList part, text.dropWhile isBareKeyChar)

/-- A key and the parts before it, spaces around each part aside. -/
def keyWithin? : Nat → List Char → Option ((List String × String) × List Char)
  | 0, _ => none
  | parts + 1, text => do
    let (part, rest) ← keyPart? (skipSpaces text)
    match skipSpaces rest with
    | '.' :: rest => do
      let ((path, key), rest) ← keyWithin? parts rest
      return ((part :: path, key), rest)
    | rest => return (([], part), rest)

def key? (text : List Char) : Option ((List String × String) × List Char) :=
  keyWithin? (limit - 1) text

/-! ## Values -/

/-- Skip spaces, line breaks and comments; `comment` tells that the text stands in a comment. -/
def skipTrivia (comment : Bool) : List Char → List Char
  | '\n' :: rest => skipTrivia false rest
  | '\r' :: '\n' :: rest => skipTrivia false rest
  | c :: rest =>
    if comment then (if isPlain c then skipTrivia true rest else c :: rest)
    else if isSpace c then skipTrivia false rest
    else if c = '#' then skipTrivia true rest
    else c :: rest
  | [] => []

abbrev Reader := List Char → Option (Value × List Char)

def items? (value? : Reader) : Nat → List Char → Option (List Value × List Char)
  | 0, _ => none
  | fuel + 1, text =>
    match skipTrivia false text with
    | ']' :: rest => some ([], rest)
    | text => do
      let (item, rest) ← value? text
      match skipTrivia false rest with
      | ',' :: rest => do
        let (items, rest) ← items? value? fuel rest
        return (item :: items, rest)
      | ']' :: rest => return ([item], rest)
      | _ => none

def pair? (value? : Reader) (text : List Char) :
    Option ((List String × String × Value) × List Char) := do
  let ((path, key), rest) ← key? text
  let rest ← after? '=' rest
  let (value, rest) ← value? (skipSpaces rest)
  return ((path, key, value), rest)

/-- The pairs of an inline table from the next one on, added to what is there. -/
def pairs? (value? : Reader) (outline : Outline) : Nat → List Char → Option (Outline × List Char)
  | 0, _ => none
  | fuel + 1, text => do
    let ((path, key, value), rest) ← pair? value? text
    let outline ← outline.addValue path key value .explicit
    match skipSpaces rest with
    | ',' :: rest => pairs? value? outline fuel rest
    | '\x7d' :: rest => return (outline, rest)
    | _ => none

/-- The part of a text before its rest, as a string. -/
private def before (text rest : List Char) : String :=
  String.ofList (text.take (text.length - rest.length))

def scalar? (text : List Char) : Option (Value × List Char) :=
  match text with
  | '"' :: _ | '\'' :: _ => (string? text).map fun (text, rest) => (.string text, rest)
  | 't' :: 'r' :: 'u' :: 'e' :: rest => some (.boolean true, rest)
  | 'f' :: 'a' :: 'l' :: 's' :: 'e' :: rest => some (.boolean false, rest)
  | _ =>
    match datetime? text with
    | some rest => some (.datetime (before text rest), rest)
    | none => number? text

/-- A value that may nest this many levels. -/
def value? : Nat → Reader
  | 0, text => scalar? text
  | room + 1, text =>
    match text with
    | '[' :: rest =>
      (items? (value? room) (rest.length + 1) rest).map fun (items, rest) => (.array items, rest)
    | '\x7b' :: rest =>
      match skipSpaces rest with
      | '\x7d' :: rest => some (.table [], rest)
      | rest =>
        (pairs? (value? room) [] (rest.length + 1) rest).map fun (outline, rest) =>
          (.table (Node.finishEntries outline), rest)
    | _ => scalar? text

/-! ## Expressions -/

inductive Expression where
  | pair (path : List String) (key : String) (value : Value)
  | header (path : List String) (key : String)
  | element (path : List String) (key : String)

/-- The text after the end of a line, a comment before it aside. -/
def lineEnd? (text : List Char) : Option (List Char) :=
  let rest :=
    match skipSpaces text with
    | '#' :: rest => rest.dropWhile isPlain
    | rest => rest
  match rest with
  | [] => some []
  | rest => lineBreak? rest

def expression? (text : List Char) : Option (Expression × List Char) :=
  match text with
  | '[' :: '[' :: rest => do
    let ((path, key), rest) ← key? rest
    let rest ← (after? ']' rest).bind (after? ']')
    return (.element path key, ← lineEnd? rest)
  | '[' :: rest => do
    let ((path, key), rest) ← key? rest
    let rest ← after? ']' rest
    return (.header path key, ← lineEnd? rest)
  | _ => do
    let ((path, key, value), rest) ← pair? (value? (limit - 1)) text
    return (.pair path key value, ← lineEnd? rest)

def expressionsWithin? : Nat → List Char → Option (List Expression)
  | 0, _ => none
  | fuel + 1, text =>
    match skipTrivia false text with
    | [] => some []
    | text => do
      let (expression, rest) ← expression? text
      return expression :: (← expressionsWithin? fuel rest)

def expressions? (text : List Char) : Option (List Expression) :=
  expressionsWithin? (text.length + 1) text

/-- Build the document from its expressions; pairs belong to the table of the last header. -/
def outline? : List Expression → List String → Outline → Option Outline
  | [], _, outline => some outline
  | .pair path key value :: rest, table, outline => do
    outline? rest table
      (← outline.descend false (fun _ => Outline.addValue path key value .explicit) table .explicit)
  | .header path key :: rest, _, outline => do
    outline? rest (path ++ [key]) (← outline.addTable path key)
  | .element path key :: rest, _, outline => do
    outline? rest (path ++ [key]) (← outline.addElement path key)

def skipByteOrderMark : List Char → List Char
  | '\uFEFF' :: rest => rest
  | text => text

/-- The table that a text denotes, if it follows the grammar. -/
def read? (text : String) : Option Table := do
  let expressions ← expressions? (skipByteOrderMark text.toList)
  return Node.finishEntries (← outline? expressions [] [])

end AbiFacts.Toml
