import AbiFacts.Json.Basic
import AbiFacts.Json.Text

/-! # What a JSON text holds

A scan is the tree that a text spells up to the place where it breaks the grammar, with the break
marked in the tree. Every text has a scan. Reading a scan in document order therefore meets an
ill-fitting value before a later break, as a reader of the text does.
-/
namespace AbiFacts.Json

/-- How the text of an object goes on after its last entry. -/
inductive Ending where
  /-- The object is closed. -/
  | closed
  /-- A key follows without a colon. -/
  | bare (key : Option String)
  /-- The text breaks off, or something follows that is no key. -/
  | cut
  deriving DecidableEq

/-- A JSON text as far as it follows the grammar. A string or key is without a text when its escapes
leave half of a surrogate pair. -/
inductive Scan where
  | null
  | boolean (value : Bool)
  | number (value : Number)
  | string (text : Option String)
  | array (items : List Scan) (closed : Bool)
  | object (entries : List (Option String × Scan)) (ending : Ending)
  | broken

def skipBlanks : List Char → List Char :=
  List.dropWhile fun c => c == ' ' || c == '\n' || c == '\t' || c == '\r'

def fraction? (text : List Char) : Option (Option (List Nat) × List Char) :=
  match text with
  | '.' :: rest =>
    match Decimal.takeDigits rest with
    | ([], _) => none
    | (digits, rest) => some (some digits, rest)
  | _ => some (none, text)

def signedDigits? (text : List Char) : Option (Int × List Char) :=
  let (negative, rest) : Bool × List Char :=
    match text with
    | '-' :: rest => (true, rest)
    | '+' :: rest => (false, rest)
    | _ => (false, text)
  match Decimal.takeDigits rest with
  | ([], _) => none
  | (digits, rest) =>
    let value : Int := Decimal.ofDigits 10 digits
    some (if negative then -value else value, rest)

def exponent? (text : List Char) : Option (Option Int × List Char) :=
  match text with
  | 'e' :: rest | 'E' :: rest => (signedDigits? rest).map fun (value, rest) => (some value, rest)
  | _ => some (none, text)

/-- A number: no leading zeros, digits on both sides of a point. -/
def number? (text : List Char) : Option (Number × List Char) := do
  let (negative, rest) : Bool × List Char :=
    match text with
    | '-' :: rest => (true, rest)
    | _ => (false, text)
  let (whole, rest) := Decimal.takeDigits rest
  match whole with
  | [] => none
  | 0 :: _ :: _ => none
  | whole =>
    let magnitude := Decimal.ofDigits 10 whole
    let (fraction, rest) ← fraction? rest
    let (exponent, rest) ← exponent? rest
    match fraction, exponent with
    | none, none => some (.integer negative magnitude, rest)
    | _, _ => some (.decimal ⟨negative, magnitude, fraction.getD [], exponent.getD 0⟩, rest)

mutual

/-- The value at the front of a text and what follows it; nothing follows a break. -/
def scanValue : Nat → List Char → Scan × List Char
  | 0, _ => (.broken, [])
  | fuel + 1, text =>
    match skipBlanks text with
    | 'n' :: 'u' :: 'l' :: 'l' :: rest => (.null, rest)
    | 't' :: 'r' :: 'u' :: 'e' :: rest => (.boolean true, rest)
    | 'f' :: 'a' :: 'l' :: 's' :: 'e' :: rest => (.boolean false, rest)
    | '"' :: rest =>
      match string? rest with
      | some (text, rest) => (.string text, rest)
      | none => (.broken, [])
    | '[' :: rest =>
      match skipBlanks rest with
      | ']' :: rest => (.array [] true, rest)
      | rest =>
        let (items, closed, rest) := scanItems fuel rest
        (.array items closed, rest)
    | '{' :: rest =>
      match skipBlanks rest with
      | '}' :: rest => (.object [] .closed, rest)
      | rest =>
        let (entries, ending, rest) := scanEntries fuel rest
        (.object entries ending, rest)
    | rest =>
      match number? rest with
      | some (value, rest) => (.number value, rest)
      | none => (.broken, [])

def scanItems : Nat → List Char → List Scan × Bool × List Char
  | 0, _ => ([], false, [])
  | fuel + 1, text =>
    let (item, rest) := scanValue fuel text
    match skipBlanks rest with
    | ',' :: rest =>
      let (items, closed, rest) := scanItems fuel rest
      (item :: items, closed, rest)
    | ']' :: rest => ([item], true, rest)
    | _ => ([item], false, [])

def scanEntries :
    Nat → List Char → List (Option String × Scan) × Ending × List Char
  | 0, _ => ([], .cut, [])
  | fuel + 1, text =>
    match skipBlanks text with
    | '"' :: rest =>
      match string? rest with
      | none => ([], .cut, [])
      | some (key, rest) =>
        match skipBlanks rest with
        | ':' :: rest =>
          let (value, rest) := scanValue fuel rest
          match skipBlanks rest with
          | ',' :: rest =>
            let (entries, ending, rest) := scanEntries fuel rest
            ((key, value) :: entries, ending, rest)
          | '}' :: rest => ([(key, value)], .closed, rest)
          | _ => ([(key, value)], .cut, [])
        | _ => ([], .bare key, [])
    | _ => ([], .cut, [])

end

/-- The scan of a whole text, and whether anything but blanks follows the value. Of any two steps in
a row at least one takes a character. -/
def scan (text : String) : Scan × Bool :=
  let (value, rest) := scanValue (2 * text.length + 1) text.toList
  (value, !(skipBlanks rest).isEmpty)

mutual

/-- The scan of a document that follows the grammar throughout. -/
def Scan.ofJson : Json → Scan
  | .null => .null
  | .boolean value => .boolean value
  | .number value => .number value
  | .string text => .string (some text)
  | .array items => .array (ofItems items) true
  | .object entries => .object (ofEntries entries) .closed

def Scan.ofItems : List Json → List Scan
  | [] => []
  | item :: items => Scan.ofJson item :: ofItems items

def Scan.ofEntries : List (String × Json) → List (Option String × Scan)
  | [] => []
  | (key, value) :: entries => (some key, Scan.ofJson value) :: ofEntries entries

end

end AbiFacts.Json
