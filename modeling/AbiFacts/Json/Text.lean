import AbiFacts.Text.Hex
import AbiFacts.Text.Spelling

/-! # JSON strings

Writing escapes the quote, the backslash and control characters and nothing else. Reading accepts
every escape of the format. An escape that leaves half of a surrogate pair is grammatical but
denotes no text, so such a string is kept as a string without a text.
-/
namespace AbiFacts.Json

def escape (c : Char) : List Char :=
  match c with
  | '"' => ['\\', '"']
  | '\\' => ['\\', '\\']
  | '\n' => ['\\', 'n']
  | '\r' => ['\\', 'r']
  | '\t' => ['\\', 't']
  | '\x08' => ['\\', 'b']
  | '\x0c' => ['\\', 'f']
  | c => if c.toNat < 0x20 then '\\' :: 'u' :: Text.hex4 Text.lowerDigit c.toNat else [c]

def quote (text : String) : List Char :=
  '"' :: (text.toList.flatMap escape ++ ['"'])

def isHighSurrogate (n : Nat) : Bool := 0xD800 ≤ n && n < 0xDC00

def isLowSurrogate (n : Nat) : Bool := 0xDC00 ≤ n && n < 0xE000

def joinSurrogates (high low : Nat) : Char :=
  Char.ofNat (0x10000 + (high - 0xD800) * 0x400 + (low - 0xDC00))

/-- The low half of a pair, written as an escape at the front of a text. -/
def lowEscape? (text : List Char) : Option (Nat × List Char) :=
  match text with
  | '\\' :: 'u' :: rest => (Text.hex? 4 rest).filter fun (n, _) => isLowSurrogate n
  | _ => none

/-- The unit after a backslash and a `u`; half a pair is a unit without a character. -/
def unicodeEscape (text : List Char) : Text.Step (Option Char) :=
  match Text.hex? 4 text with
  | none => .fault
  | some (n, rest) =>
    if isHighSurrogate n then
      match lowEscape? rest with
      | some (low, rest) => .units [some (joinSurrogates n low)] rest
      | none => .units [none] rest
    else .units [Text.scalar? n] rest

def stringStep : List Char → Text.Step (Option Char)
  | [] => .fault
  | '"' :: rest => .stop [] rest
  | '\\' :: 'u' :: rest => unicodeEscape rest
  | '\\' :: '"' :: rest => .units [some '"'] rest
  | '\\' :: '\\' :: rest => .units [some '\\'] rest
  | '\\' :: '/' :: rest => .units [some '/'] rest
  | '\\' :: 'b' :: rest => .units [some '\x08'] rest
  | '\\' :: 'f' :: rest => .units [some '\x0c'] rest
  | '\\' :: 'n' :: rest => .units [some '\n'] rest
  | '\\' :: 'r' :: rest => .units [some '\r'] rest
  | '\\' :: 't' :: rest => .units [some '\t'] rest
  | '\\' :: _ => .fault
  | c :: rest => if c.toNat < 0x20 then .fault else .units [some c] rest

/-- The text that units spell, if each of them is a character. -/
def textOf? (units : List (Option Char)) : Option String :=
  (units.mapM id).map String.ofList

/-- A string after its opening quote, with the text that it denotes, if any. -/
def string? (text : List Char) : Option (Option String × List Char) :=
  (Text.spell stringStep text).map fun (units, rest) => (textOf? units, rest)

end AbiFacts.Json
