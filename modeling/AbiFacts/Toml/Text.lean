import AbiFacts.Text.Hex
import AbiFacts.Text.Spelling

/-! # TOML strings

A text is written in the first of four forms that suits it, by its line breaks, control characters,
backslashes and longest runs of both quotes. Reading undoes each form: an opening line break is
dropped, escapes are replaced, and up to two quotes may stand before the closing ones.
-/
namespace AbiFacts.Toml

/-- May the character stand unescaped in text and comments? -/
def isPlain (c : Char) : Bool :=
  c == '\t' || (0x20 ≤ c.toNat && c.toNat != 0x7F)

def isSpace (c : Char) : Bool := c == ' ' || c == '\t'

def skipSpaces : List Char → List Char :=
  List.dropWhile isSpace

def lineBreak? : List Char → Option (List Char)
  | '\n' :: rest => some rest
  | '\r' :: '\n' :: rest => some rest
  | _ => none

/-! ## Reading -/

def scalarEscape (count : Nat) (text : List Char) : Text.Step Char :=
  match Text.hex? count text with
  | some (n, rest) =>
    match Text.scalar? n with
    | some c => .units [c] rest
    | none => .fault
  | none => .fault

def escapeStep : List Char → Text.Step Char
  | 'b' :: rest => .units ['\x08'] rest
  | 't' :: rest => .units ['\t'] rest
  | 'n' :: rest => .units ['\n'] rest
  | 'f' :: rest => .units ['\x0c'] rest
  | 'r' :: rest => .units ['\r'] rest
  | '"' :: rest => .units ['"'] rest
  | '\\' :: rest => .units ['\\'] rest
  | 'u' :: rest => scalarEscape 4 rest
  | 'U' :: rest => scalarEscape 8 rest
  | _ => .fault

def plainStep : List Char → Text.Step Char
  | c :: rest => if isPlain c then .units [c] rest else .fault
  | [] => .fault

def basicStep : List Char → Text.Step Char
  | '"' :: rest => .stop [] rest
  | '\\' :: rest => escapeStep rest
  | text => plainStep text

def literalStep : List Char → Text.Step Char
  | '\'' :: rest => .stop [] rest
  | text => plainStep text

/-- A character of several lines of text. Every line break counts as a line feed. -/
def lineStep (text : List Char) : Text.Step Char :=
  match lineBreak? text with
  | some rest => .units ['\n'] rest
  | none => plainStep text

/-- After a backslash at the end of a line, blanks and line breaks are skipped. -/
def skipLines : List Char → List Char
  | ' ' :: rest | '\t' :: rest | '\n' :: rest | '\r' :: '\n' :: rest => skipLines rest
  | text => text

def multilineBasicStep : List Char → Text.Step Char
  | '"' :: '"' :: '"' :: '"' :: '"' :: rest => .stop ['"', '"'] rest
  | '"' :: '"' :: '"' :: '"' :: rest => .stop ['"'] rest
  | '"' :: '"' :: '"' :: rest => .stop [] rest
  | '\\' :: rest =>
    match lineBreak? (skipSpaces rest) with
    | some rest => .units [] (skipLines rest)
    | none => escapeStep rest
  | text => lineStep text

def multilineLiteralStep : List Char → Text.Step Char
  | '\'' :: '\'' :: '\'' :: '\'' :: '\'' :: rest => .stop ['\'', '\''] rest
  | '\'' :: '\'' :: '\'' :: '\'' :: rest => .stop ['\''] rest
  | '\'' :: '\'' :: '\'' :: rest => .stop [] rest
  | text => lineStep text

def skipLineBreak (text : List Char) : List Char :=
  (lineBreak? text).getD text

def spelled (step : List Char → Text.Step Char) (text : List Char) :
    Option (String × List Char) :=
  (Text.spell step text).map fun (units, rest) => (String.ofList units, rest)

/-- A string on one line, as keys may be. -/
def lineString? : List Char → Option (String × List Char)
  | '"' :: rest => spelled basicStep rest
  | '\'' :: rest => spelled literalStep rest
  | _ => none

def string? : List Char → Option (String × List Char)
  | '"' :: '"' :: '"' :: rest => spelled multilineBasicStep (skipLineBreak rest)
  | '\'' :: '\'' :: '\'' :: rest => spelled multilineLiteralStep (skipLineBreak rest)
  | text => lineString? text

/-! ## Writing -/

/-- Control characters other than tab and line feed: they must be escaped in every form. -/
def isControl (c : Char) : Bool :=
  (c.toNat < 0x20 && c != '\t' && c != '\n') || c.toNat == 0x7F

/-- The length of the longest run of a character; `run` is how much of a run has been read. -/
def longestRun (c : Char) (run : Nat) : List Char → Nat
  | [] => run
  | d :: rest => if d = c then longestRun c (run + 1) rest else max run (longestRun c 0 rest)

inductive Form where
  | basic
  | literal
  | multilineBasic
  | multilineLiteral
  deriving DecidableEq

def Form.of (text : List Char) : Form :=
  let control := text.any isControl
  let backslash := text.contains '\\'
  let breaks := text.contains '\n'
  let single := longestRun '\'' 0 text
  let double := longestRun '"' 0 text
  if !control && !backslash && double = 0 && !breaks then basic
  else if !control && single = 0 && !breaks then literal
  else if !control && !backslash && double ≤ 2 then multilineBasic
  else if !control && single ≤ 2 then multilineLiteral
  else if breaks then multilineBasic
  else basic

/-- Escapes that both basic forms share. -/
def escape (c : Char) : List Char :=
  match c with
  | '\x08' => ['\\', 'b']
  | '\t' => ['\\', 't']
  | '\x0c' => ['\\', 'f']
  | '\r' => ['\\', 'r']
  | '\\' => ['\\', '\\']
  | c => if isControl c then '\\' :: 'u' :: Text.hex4 Text.upperDigit c.toNat else [c]

/-- On one line, line feeds and quotes are escaped too. -/
def escapeInLine (c : Char) : List Char :=
  match c with
  | '\n' => ['\\', 'n']
  | '"' => ['\\', '"']
  | c => escape c

/-- On several lines, only each third quote of a run is escaped; `quotes` counts the unescaped ones
right before. -/
def escapeLines (quotes : Nat) : List Char → List Char
  | [] => []
  | c :: rest =>
    if c = '"' then
      if quotes = 2 then '\\' :: '"' :: escapeLines 0 rest
      else '"' :: escapeLines (quotes + 1) rest
    else escape c ++ escapeLines 0 rest

def quoteBasic (text : List Char) : List Char :=
  '"' :: (text.flatMap escapeInLine ++ ['"'])

def opened (text inside : List Char) : List Char :=
  if text.contains '\n' then '\n' :: inside else inside

def Form.write (text : List Char) : Form → List Char
  | basic => quoteBasic text
  | literal => '\'' :: (text ++ ['\''])
  | multilineBasic =>
    ['"', '"', '"'] ++ opened text (escapeLines 0 text) ++ ['"', '"', '"']
  | multilineLiteral => ['\'', '\'', '\''] ++ opened text text ++ ['\'', '\'', '\'']

def quote (text : String) : List Char :=
  (Form.of text.toList).write text.toList

end AbiFacts.Toml
