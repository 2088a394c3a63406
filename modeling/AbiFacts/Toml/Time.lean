import AbiFacts.Decimal.Digits

/-! # Dates and times

The calendar and clock readings that TOML admits: a date, a time of day, or a date with a time and
perhaps an offset. A leap second is admitted in every minute.
-/
namespace AbiFacts.Toml

/-- A number of exactly `count` digits within bounds, at the front of a text. -/
def fixed? (count least greatest : Nat) (text : List Char) : Option (Nat × List Char) :=
  let digits := (text.take count).filterMap (Decimal.digit? 10)
  let value := Decimal.ofDigits 10 digits
  if digits.length = count ∧ least ≤ value ∧ value ≤ greatest then some (value, text.drop count)
  else none

def after? (c : Char) : List Char → Option (List Char)
  | d :: rest => if d = c then some rest else none
  | [] => none

def isLeap (year : Nat) : Bool :=
  year % 4 = 0 && (year % 100 ≠ 0 || year % 400 = 0)

def daysIn (year month : Nat) : Nat :=
  if month = 2 then (if isLeap year then 29 else 28)
  else if month ∈ [4, 6, 9, 11] then 30
  else 31

def date? (text : List Char) : Option (List Char) := do
  let (year, rest) ← fixed? 4 0 9999 text
  let rest ← after? '-' rest
  let (month, rest) ← fixed? 2 1 12 rest
  let rest ← after? '-' rest
  let (_, rest) ← fixed? 2 1 (daysIn year month) rest
  return rest

def skipFraction (text : List Char) : List Char :=
  match text with
  | '.' :: rest =>
    match Decimal.takeDigits rest with
    | ([], _) => text
    | (_, rest) => rest
  | _ => text

def timeOfDay? (text : List Char) : Option (List Char) := do
  let (_, rest) ← fixed? 2 0 23 text
  let rest ← after? ':' rest
  let (_, rest) ← fixed? 2 0 59 rest
  let rest ← after? ':' rest
  let (_, rest) ← fixed? 2 0 60 rest
  return skipFraction rest

def offset? (text : List Char) : Option (List Char) :=
  match text with
  | 'Z' :: rest | 'z' :: rest => some rest
  | '+' :: rest | '-' :: rest => do
    let (_, rest) ← fixed? 2 0 23 rest
    let rest ← after? ':' rest
    let (_, rest) ← fixed? 2 0 59 rest
    return rest
  | _ => none

/-- The text after a date, with a time and an offset as far as they follow. -/
def afterDate (rest : List Char) : List Char :=
  match rest with
  | c :: later =>
    if c = 'T' ∨ c = 't' ∨ c = ' ' then
      match timeOfDay? later with
      | some later => (offset? later).getD later
      | none => rest
    else rest
  | [] => rest

/-- The text after a date, a time or both. -/
def datetime? (text : List Char) : Option (List Char) :=
  match date? text with
  | some rest => some (afterDate rest)
  | none => timeOfDay? text

end AbiFacts.Toml
