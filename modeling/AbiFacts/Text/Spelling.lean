/-! # Spelled text

Quoted text is spelled as a sequence of units up to a closing mark. A quoting style is the one step
that reads a unit or the mark; `spell` repeats it.
-/
namespace AbiFacts.Text

/-- What stands at the front of spelled text: units, the closing mark after some last units, or
something that is neither. -/
inductive Step (α : Type) where
  | units (units : List α) (rest : List Char)
  | stop (last : List α) (rest : List Char)
  | fault

def spellWithin {α : Type} (step : List Char → Step α) :
    Nat → List Char → Option (List α × List Char)
  | 0, _ => none
  | fuel + 1, text =>
    match step text with
    | .units units rest =>
      (spellWithin step fuel rest).map fun (more, rest) => (units ++ more, rest)
    | .stop last rest => some (last, rest)
    | .fault => none

/-- Every step takes at least one character, so the length of the text bounds their number. -/
def spell {α : Type} (step : List Char → Step α) (text : List Char) :
    Option (List α × List Char) :=
  spellWithin step (text.length + 1) text

end AbiFacts.Text
