import AbiFacts.Toml.Basic

/-! # TOML numbers

Integers in four bases, within 64 bits and with underscores between digits, and floats. A float must
not exceed the largest one.
-/
namespace AbiFacts.Toml

/-- The digits after the first of a run, single underscores between them aside. -/
def moreDigits (base : Nat) : List Char → List Nat × List Char
  | '_' :: c :: rest =>
    match Decimal.digit? base c with
    | some digit =>
      let (digits, rest) := moreDigits base rest
      (digit :: digits, rest)
    | none => ([], '_' :: c :: rest)
  | c :: rest =>
    match Decimal.digit? base c with
    | some digit =>
      let (digits, rest) := moreDigits base rest
      (digit :: digits, rest)
    | none => ([], c :: rest)
  | [] => ([], [])

def digitRun? (base : Nat) : List Char → Option (List Nat × List Char)
  | c :: rest => do
    let digit ← Decimal.digit? base c
    let (digits, rest) := moreDigits base rest
    return (digit :: digits, rest)
  | [] => none

/-- The sign at the front of a number: is it negative? -/
def sign : List Char → Bool × List Char
  | '-' :: rest => (true, rest)
  | '+' :: rest => (false, rest)
  | text => (false, text)

def based? (base : Nat) (text : List Char) : Option (Value × List Char) := do
  let (digits, rest) ← digitRun? base text
  let value : Int := Decimal.ofDigits base digits
  if value ≤ Int64.maxValue.toInt then some (.integer value, rest) else none

def fraction? (text : List Char) : Option (Option (List Nat) × List Char) :=
  match text with
  | '.' :: rest => (digitRun? 10 rest).map fun (digits, rest) => (some digits, rest)
  | _ => some (none, text)

def exponent? (text : List Char) : Option (Option Int × List Char) :=
  match text with
  | 'e' :: rest | 'E' :: rest =>
    let (negative, rest) := sign rest
    (digitRun? 10 rest).map fun (digits, rest) =>
      let value : Int := Decimal.ofDigits 10 digits
      (some (if negative then -value else value), rest)
  | _ => some (none, text)

def decimal? (text : List Char) : Option (Value × List Char) := do
  let (negative, rest) := sign text
  let (whole, rest) ← digitRun? 10 rest
  match whole with
  | 0 :: _ :: _ => none
  | whole =>
    let magnitude := Decimal.ofDigits 10 whole
    let (fraction, rest) ← fraction? rest
    let (exponent, rest) ← exponent? rest
    match fraction, exponent with
    | none, none =>
      let value : Int := if negative then -magnitude else magnitude
      if Int64.minValue.toInt ≤ value ∧ value ≤ Int64.maxValue.toInt then
        some (.integer value, rest)
      else none
    | _, _ =>
      let numeral : Decimal := ⟨negative, magnitude, fraction.getD [], exponent.getD 0⟩
      if numeral.nearest.isInf && !negative then none
      else some (.float (.decimal numeral), rest)

def number? (text : List Char) : Option (Value × List Char) :=
  match text with
  | '0' :: 'x' :: rest => based? 16 rest
  | '0' :: 'o' :: rest => based? 8 rest
  | '0' :: 'b' :: rest => based? 2 rest
  | _ =>
    match sign text with
    | (negative, 'i' :: 'n' :: 'f' :: rest) => some (.float (.infinity negative), rest)
    | (_, 'n' :: 'a' :: 'n' :: rest) => some (.float .nan, rest)
    | _ => decimal? text

end AbiFacts.Toml
