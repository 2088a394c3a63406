import AbiFacts.Json.Written
import AbiFacts.Json.Scan
import AbiFacts.Proofs.Decimal.Digits
import AbiFacts.Proofs.Json.Strings
import Mathlib.Data.List.DropRight

/-! # Scanning written JSON

A written value is scanned to its own tree, in both layouts and before anything that a value may end
at (`scan_write`). Numbers are integers here. Fuel is bounded by the length of the text, so the
statements about parts of a text hold for any fuel that is large enough.
-/
namespace AbiFacts.Json

open Decimal (BeginsInteger Delimits)

/-! ## Blanks -/

def isBlank (c : Char) : Bool := c == ' ' || c == '\n' || c == '\t' || c == '\r'

theorem skipBlanks_append {blanks : List Char} (h : ∀ c ∈ blanks, isBlank c = true)
    (text : List Char) : skipBlanks (blanks ++ text) = skipBlanks text :=
  List.dropWhile_append_of_pos h

theorem skipBlanks_skipBlanks (text : List Char) :
    skipBlanks (skipBlanks text) = skipBlanks text :=
  List.dropWhile_idempotent ..

theorem skipBlanks_cons {c : Char} (h : isBlank c = false) (text : List Char) :
    skipBlanks (c :: text) = c :: text :=
  List.dropWhile_cons_of_neg (by simpa [isBlank] using h)

/-- Blanks end a value, so what ends it may come after blanks. -/
theorem delimits_blanks_append {blanks rest : List Char} (h : ∀ c ∈ blanks, isBlank c = true)
    (hrest : Delimits rest) : Delimits (blanks ++ rest) := by
  cases blanks with
  | nil => exact hrest
  | cons c blanks =>
    have hc := h c (by simp)
    simp only [isBlank, Bool.or_eq_true, beq_iff_eq] at hc
    rw [List.cons_append]
    refine .cons ?_ _
    rcases hc with ((rfl | rfl) | rfl) | rfl <;> decide

theorem scanValue_skipBlanks (fuel : Nat) (text : List Char) :
    scanValue fuel (skipBlanks text) = scanValue fuel text := by
  cases fuel with
  | zero => rfl
  | succ fuel => rw [scanValue, scanValue, skipBlanks_skipBlanks]

theorem scanItems_skipBlanks (fuel : Nat) (text : List Char) :
    scanItems fuel (skipBlanks text) = scanItems fuel text := by
  cases fuel with
  | zero => rfl
  | succ fuel => rw [scanItems, scanItems, scanValue_skipBlanks]

theorem scanEntries_skipBlanks (fuel : Nat) (text : List Char) :
    scanEntries fuel (skipBlanks text) = scanEntries fuel text := by
  cases fuel with
  | zero => rfl
  | succ fuel => rw [scanEntries, scanEntries, skipBlanks_skipBlanks]

/-! ## What a text is scanned as -/

/-- A text is the whole of a value with this scan, with fuel by its length. -/
def ScansAs (text : List Char) (value : Scan) : Prop :=
  ∀ fuel rest, Delimits rest → 2 * text.length ≤ fuel →
    scanValue fuel (text ++ rest) = (value, rest)

def ItemsScanAs (text : List Char) (items : List Scan) : Prop :=
  ∀ fuel rest, 2 * text.length ≤ fuel → scanItems fuel (text ++ rest) = (items, true, rest)

def EntriesScanAs (text : List Char) (entries : List (Option String × Scan)) : Prop :=
  ∀ fuel rest, 2 * text.length ≤ fuel →
    scanEntries fuel (text ++ rest) = (entries, .closed, rest)

theorem ScansAs.blanks {blanks text : List Char} {value : Scan} (h : ScansAs text value)
    (hblanks : ∀ c ∈ blanks, isBlank c = true) : ScansAs (blanks ++ text) value := by
  intro fuel rest hrest hfuel
  rw [List.length_append] at hfuel
  rw [← scanValue_skipBlanks, List.append_assoc, skipBlanks_append hblanks, scanValue_skipBlanks]
  exact h fuel rest hrest (by omega)

theorem ItemsScanAs.last {text blanks : List Char} {item : Scan} (h : ScansAs text item)
    (hblanks : ∀ c ∈ blanks, isBlank c = true) :
    ItemsScanAs (text ++ (blanks ++ [']'])) [item] := by
  intro fuel rest hfuel
  simp only [List.length_append, List.length_singleton] at hfuel
  obtain ⟨fuel, rfl⟩ : ∃ more, fuel = more + 1 := ⟨fuel - 1, by omega⟩
  have hend : skipBlanks (blanks ++ ']' :: rest) = ']' :: rest := by
    rw [skipBlanks_append hblanks, skipBlanks_cons (by decide)]
  have hdelimits := delimits_blanks_append hblanks (.cons (c := ']') (by decide) rest)
  have hitem := h fuel (blanks ++ ']' :: rest) hdelimits (by omega)
  simp only [List.append_assoc, List.singleton_append, scanItems, hitem, hend]

theorem ItemsScanAs.cons {text more : List Char} {item : Scan} {items : List Scan}
    (h : ScansAs text item) (hmore : ItemsScanAs more items) :
    ItemsScanAs (text ++ ',' :: more) (item :: items) := by
  intro fuel rest hfuel
  simp only [List.length_append, List.length_cons] at hfuel
  obtain ⟨fuel, rfl⟩ : ∃ more, fuel = more + 1 := ⟨fuel - 1, by omega⟩
  have hitem := h fuel (',' :: (more ++ rest)) (.cons (by decide) _) (by omega)
  have hitems := hmore fuel rest (by omega)
  simp only [List.append_assoc, List.cons_append, scanItems, hitem,
    skipBlanks_cons (c := ',') (by decide), hitems]

/-- Up to the value of an entry all is read before the value. -/
theorem scanEntries_key (fuel : Nat) (key : String) (rest : List Char) :
    scanEntries (fuel + 1) (quote key ++ ':' :: rest) =
      match scanValue fuel rest with
      | (value, rest) =>
        match skipBlanks rest with
        | ',' :: rest =>
          match scanEntries fuel rest with
          | (entries, ending, rest) => ((some key, value) :: entries, ending, rest)
        | '\x7d' :: rest => ([(some key, value)], .closed, rest)
        | _ => ([(some key, value)], .cut, []) := by
  have hkey := string?_quote key (':' :: rest)
  have hquote : quote key ++ ':' :: rest =
      '"' :: (key.toList.flatMap escape ++ '"' :: ':' :: rest) := by
    simp [quote]
  have hscan := scanEntries.eq_def (fuel + 1)
    ('"' :: (key.toList.flatMap escape ++ '"' :: ':' :: rest))
  simp only [skipBlanks_cons (c := '"') (by decide), hkey,
    skipBlanks_cons (c := ':') (by decide)] at hscan
  rw [hquote]
  exact hscan

theorem EntriesScanAs.last (key : String) {text blanks : List Char} {value : Scan}
    (h : ScansAs text value) (hblanks : ∀ c ∈ blanks, isBlank c = true) :
    EntriesScanAs (quote key ++ ':' :: (text ++ (blanks ++ ['\x7d']))) [(some key, value)] := by
  intro fuel rest hfuel
  simp only [List.length_append, List.length_cons, List.length_nil] at hfuel
  obtain ⟨fuel, rfl⟩ : ∃ more, fuel = more + 1 := ⟨fuel - 1, by omega⟩
  have hend : skipBlanks (blanks ++ '\x7d' :: rest) = '\x7d' :: rest := by
    rw [skipBlanks_append hblanks, skipBlanks_cons (by decide)]
  have hdelimits := delimits_blanks_append hblanks (.cons (c := '\x7d') (by decide) rest)
  have hvalue := h fuel (blanks ++ '\x7d' :: rest) hdelimits (by omega)
  simp only [List.append_assoc, List.cons_append, List.nil_append, scanEntries_key, hvalue, hend]

theorem EntriesScanAs.cons (key : String) {text more : List Char} {value : Scan}
    {entries : List (Option String × Scan)} (h : ScansAs text value)
    (hmore : EntriesScanAs more entries) :
    EntriesScanAs (quote key ++ ':' :: (text ++ ',' :: more)) ((some key, value) :: entries) := by
  intro fuel rest hfuel
  simp only [List.length_append, List.length_cons] at hfuel
  obtain ⟨fuel, rfl⟩ : ∃ more, fuel = more + 1 := ⟨fuel - 1, by omega⟩
  have hvalue := h fuel (',' :: (more ++ rest)) (.cons (by decide) _) (by omega)
  have hentries := hmore fuel rest (by omega)
  simp only [List.append_assoc, List.cons_append, scanEntries_key, hvalue,
    skipBlanks_cons (c := ',') (by decide), hentries]

theorem EntriesScanAs.blanks {blanks text : List Char} {entries : List (Option String × Scan)}
    (h : EntriesScanAs text entries) (hblanks : ∀ c ∈ blanks, isBlank c = true) :
    EntriesScanAs (blanks ++ text) entries := by
  intro fuel rest hfuel
  rw [List.length_append] at hfuel
  rw [← scanEntries_skipBlanks, List.append_assoc, skipBlanks_append hblanks,
    scanEntries_skipBlanks]
  exact h fuel rest (by omega)

/-! ## Values -/

theorem scansAs_string (text : String) : ScansAs (quote text) (.string (some text)) := by
  intro fuel rest _ hfuel
  have hquote : quote text ++ rest = '"' :: (text.toList.flatMap escape ++ '"' :: rest) := by
    simp [quote]
  obtain ⟨fuel, rfl⟩ : ∃ more, fuel = more + 1 := by
    rw [quote, List.length_cons] at hfuel
    exact ⟨fuel - 1, by omega⟩
  rw [hquote, scanValue, skipBlanks_cons (by decide)]
  simp only [string?_quote]

theorem scanValue_number {c : Char} (h : BeginsInteger c) (fuel : Nat) (text : List Char) :
    scanValue (fuel + 1) (c :: text) =
      match number? (c :: text) with
      | some (value, rest) => (.number value, rest)
      | none => (.broken, []) := by
  have hblank : isBlank c = false := by
    simp [isBlank, h.ne (d := ' ') (by decide) (by decide),
      h.ne (d := '\n') (by decide) (by decide), h.ne (d := '\t') (by decide) (by decide),
      h.ne (d := '\r') (by decide) (by decide)]
  rw [scanValue, skipBlanks_cons hblank]
  split
  case h_7 => rfl
  all_goals
    next heq =>
      cases heq
      exact absurd rfl (h.ne (by decide) (by decide))

theorem fraction?_of_delimits {rest : List Char} (h : Delimits rest) :
    fraction? rest = some (none, rest) := by
  unfold fraction?
  split
  · exact absurd rfl (h.head?_ne (by decide))
  · rfl

theorem exponent?_of_delimits {rest : List Char} (h : Delimits rest) :
    exponent? rest = some (none, rest) := by
  unfold exponent?
  split
  · exact absurd rfl (h.head?_ne (by decide))
  · exact absurd rfl (h.head?_ne (by decide))
  · rfl

/-- A run of digits with or without a sign is an integer where neither a point nor an exponent
follows. -/
theorem number?_integer (negative : Bool) (magnitude : Nat) {rest : List Char}
    (hrest : Delimits rest) :
    number? ((Number.integer negative magnitude).written ++ rest) =
      some (.integer negative magnitude, rest) := by
  have hdigits := Decimal.takeDigits_toDigits magnitude hrest.endsDigits
  have hfraction := fraction?_of_delimits hrest
  have hexponent := exponent?_of_delimits hrest
  have hsign : ∀ tail, Nat.toDigits 10 magnitude ++ rest ≠ '-' :: tail := by
    obtain ⟨c, more, hc, hdigit⟩ := Decimal.toDigits_begins magnitude
    rw [hc]
    rintro tail ⟨⟩
    cases hdigit
  cases negative
  case' false =>
    rw [Number.written, if_neg (by decide), List.nil_append, number?.eq_2 _ hsign, hdigits]
  case' true =>
    rw [Number.written, if_pos rfl, List.append_assoc, List.singleton_append, number?, hdigits]
  all_goals
    simp only
    split
    · exact absurd ‹_› (Decimal.digits_ne_nil magnitude)
    · exact absurd ‹_› (Decimal.digits_ne_leading_zero magnitude _ _)
    · simp [hfraction, hexponent]

theorem scansAs_integer (negative : Bool) (magnitude : Nat) :
    ScansAs (Number.integer negative magnitude).written
      (.number (.integer negative magnitude)) := by
  intro fuel rest hrest hfuel
  have hread := number?_integer negative magnitude hrest
  obtain ⟨c, tail, hc, hbegins⟩ := Decimal.signed_begins (negative = true) magnitude
  rw [Number.written, hc] at hfuel hread ⊢
  rw [List.length_cons] at hfuel
  obtain ⟨fuel, rfl⟩ : ∃ more, fuel = more + 1 := ⟨fuel - 1, by omega⟩
  rw [List.cons_append] at hread ⊢
  simp only [scanValue_number hbegins, hread]

theorem scanValue_bracket (fuel : Nat) (rest : List Char) :
    scanValue (fuel + 1) ('[' :: rest) =
      match skipBlanks rest with
      | ']' :: rest => (.array [] true, rest)
      | rest =>
        match scanItems fuel rest with
        | (items, closed, rest) => (.array items closed, rest) := by
  rw [scanValue, skipBlanks_cons (by decide)]
  rfl

theorem scanValue_brace (fuel : Nat) (rest : List Char) :
    scanValue (fuel + 1) ('\x7b' :: rest) =
      match skipBlanks rest with
      | '\x7d' :: rest => (.object [] .closed, rest)
      | rest =>
        match scanEntries fuel rest with
        | (entries, ending, rest) => (.object entries ending, rest) := by
  rw [scanValue, skipBlanks_cons (by decide)]
  rfl

theorem scanValue_closing (fuel : Nat) (rest : List Char) :
    scanValue fuel (']' :: rest) = (.broken, []) := by
  cases fuel with
  | zero => rfl
  | succ fuel =>
    rw [scanValue, skipBlanks_cons (by decide)]
    rfl

/-- Items do not begin with the end of their array. -/
theorem ItemsScanAs.array {text : List Char} {items : List Scan} (h : ItemsScanAs text items) :
    ScansAs ('[' :: text) (.array items true) := by
  intro fuel rest _ hfuel
  rw [List.length_cons] at hfuel
  obtain ⟨fuel, rfl⟩ : ∃ more, fuel = more + 1 := ⟨fuel - 1, by omega⟩
  have hitems := h fuel rest (by omega)
  rw [← scanItems_skipBlanks] at hitems
  rw [List.cons_append, scanValue_bracket]
  split
  case h_1 more hskip =>
    rw [hskip] at hitems
    cases fuel with
    | zero => cases hitems
    | succ fuel =>
      rw [scanItems, scanValue_closing] at hitems
      cases hitems
  case h_2 =>
    rw [hitems]

/-- Entries do not begin with the end of their object. -/
theorem EntriesScanAs.object {text : List Char} {entries : List (Option String × Scan)}
    (h : EntriesScanAs text entries) : ScansAs ('\x7b' :: text) (.object entries .closed) := by
  intro fuel rest _ hfuel
  rw [List.length_cons] at hfuel
  obtain ⟨fuel, rfl⟩ : ∃ more, fuel = more + 1 := ⟨fuel - 1, by omega⟩
  have hentries := h fuel rest (by omega)
  rw [← scanEntries_skipBlanks] at hentries
  rw [List.cons_append, scanValue_brace]
  split
  case h_1 more hskip =>
    rw [hskip] at hentries
    cases fuel with
    | zero => cases hentries
    | succ fuel =>
      rw [scanEntries, skipBlanks_cons (by decide)] at hentries
      cases hentries
  case h_2 =>
    rw [hentries]

/-! ## Written values -/

/-- A layout puts nothing but blanks between the parts of a text. -/
structure Layout.IsBlank (layout : Layout) : Prop where
  lineBreak : ∀ depth, ∀ c ∈ layout.lineBreak depth, Json.isBlank c = true
  colon : ∃ blanks, layout.colon = ':' :: blanks ∧ ∀ c ∈ blanks, Json.isBlank c = true

theorem Layout.compact_isBlank : compact.IsBlank where
  lineBreak := by simp [compact]
  colon := ⟨[], rfl, by simp⟩

theorem Layout.pretty_isBlank : pretty.IsBlank where
  lineBreak := by
    intro depth c hc
    obtain rfl | hc := List.mem_cons.mp hc
    · rfl
    · rw [List.eq_of_mem_replicate hc]
      rfl
  colon := by
    refine ⟨[' '], rfl, fun c hc => ?_⟩
    rw [List.mem_singleton.mp hc]
    rfl

mutual

def isIntegral : Json → Prop
  | .number (.decimal _) => False
  | .array items => itemsAreIntegral items
  | .object entries => entriesAreIntegral entries
  | .null | .boolean _ | .number (.integer _ _) | .string _ => True

def itemsAreIntegral : List Json → Prop
  | [] => True
  | item :: items => isIntegral item ∧ itemsAreIntegral items

def entriesAreIntegral : List (String × Json) → Prop
  | [] => True
  | (_, value) :: entries => isIntegral value ∧ entriesAreIntegral entries

end

/-- A value whose scan is read off its first characters. -/
theorem scansAs_of_succ {text : List Char} {value : Scan} (htext : text ≠ [])
    (h : ∀ fuel rest, scanValue (fuel + 1) (text ++ rest) = (value, rest)) :
    ScansAs text value := by
  intro fuel rest _ hfuel
  have hpos := List.length_pos_iff.mpr htext
  obtain ⟨fuel, rfl⟩ : ∃ more, fuel = more + 1 := ⟨fuel - 1, by omega⟩
  exact h fuel rest

section

variable {layout : Layout} (hlayout : layout.IsBlank)

include hlayout

mutual

theorem scansAs_write (depth : Nat) : (value : Json) → isIntegral value →
    ScansAs (write layout depth value) (.ofJson value)
  | .null, _ | .boolean true, _ | .boolean false, _ | .array [], _ | .object [], _ =>
    scansAs_of_succ (by simp [write]) fun _ _ => rfl
  | .number (.integer negative magnitude), _ => scansAs_integer negative magnitude
  | .string text, _ => scansAs_string text
  | .array (item :: items), h => by
    have hitem := (scansAs_write (depth + 1) item h.1).blanks (hlayout.lineBreak (depth + 1))
    rw [write]
    exact (itemsScanAs_write depth items hitem h.2).array
  | .object ((key, value) :: entries), h => by
    obtain ⟨gap, hcolon, hgap⟩ := hlayout.colon
    have hvalue := (scansAs_write (depth + 1) value h.1).blanks hgap
    have hentries := entriesScanAs_write depth key entries hvalue h.2
    have hobject := (hentries.blanks (hlayout.lineBreak (depth + 1))).object
    rw [write, hcolon]
    simpa [Scan.ofJson, Scan.ofEntries] using hobject

/-- The items of an array, of which the first has been written. -/
theorem itemsScanAs_write (depth : Nat) {text : List Char} {first : Scan} : (items : List Json) →
    ScansAs text first → itemsAreIntegral items →
    ItemsScanAs (text ++ writeItems layout depth items) (first :: Scan.ofItems items)
  | [], hfirst, _ => .last hfirst (hlayout.lineBreak depth)
  | item :: items, hfirst, h => by
    have hitem := (scansAs_write (depth + 1) item h.1).blanks (hlayout.lineBreak (depth + 1))
    rw [writeItems]
    exact .cons hfirst (itemsScanAs_write depth items hitem h.2)

/-- The entries of an object, of which the first has been written. -/
theorem entriesScanAs_write (depth : Nat) {text : List Char} {first : Scan} (key : String) :
    (entries : List (String × Json)) → ScansAs text first → entriesAreIntegral entries →
    EntriesScanAs (quote key ++ ':' :: (text ++ writeEntries layout depth entries))
      ((some key, first) :: Scan.ofEntries entries)
  | [], hfirst, _ => .last key hfirst (hlayout.lineBreak depth)
  | (other, value) :: entries, hfirst, h => by
    obtain ⟨gap, hcolon, hgap⟩ := hlayout.colon
    have hvalue := (scansAs_write (depth + 1) value h.1).blanks hgap
    have hentries := entriesScanAs_write depth other entries hvalue h.2
    have hmore := EntriesScanAs.cons key hfirst (hentries.blanks (hlayout.lineBreak (depth + 1)))
    rw [writeEntries, hcolon]
    simpa [Scan.ofEntries] using hmore

end
end

theorem scan_write {layout : Layout} (hlayout : layout.IsBlank) {value : Json}
    (h : isIntegral value) :
    scan (String.ofList (write layout 0 value)) = (.ofJson value, false) := by
  have hscan :=
    scansAs_write hlayout 0 value h (2 * (write layout 0 value).length + 1) [] .nil (by omega)
  rw [List.append_nil] at hscan
  simp [scan, hscan, skipBlanks]

end AbiFacts.Json
