import AbiFacts.Json.Decode

/-! # Finished values

A text breaks the grammar at one place at most, and all of it belongs to the value in which it
breaks. So every value inside one that is finished follows the grammar (`isWhole_of_scan`).
-/
namespace AbiFacts.Json

/-- A value in which the text breaks off. -/
inductive Scan.Unfinished : Scan → Prop where
  | broken : Unfinished .broken
  | array (items : List Scan) : Unfinished (.array items false)
  | object (entries : List (Option String × Scan)) {ending : Ending} (h : ending ≠ .closed) :
      Unfinished (.object entries ending)

/-- What is read of a value: all of it, or all of the text. -/
def Finished (read : Scan × List Char) : Prop :=
  read.1.isWhole = true ∨ read.1.Unfinished ∧ read.2 = []

def ItemsFinished (read : List Scan × Bool × List Char) : Prop :=
  read.2.1 = true ∧ Scan.areWhole read.1 = true ∨ read.2.1 = false ∧ read.2.2 = []

def EntriesFinished (read : List (Option String × Scan) × Ending × List Char) : Prop :=
  read.2.1 = .closed ∧ Scan.entriesAreWhole read.1 = true ∨ read.2.1 ≠ .closed ∧ read.2.2 = []

theorem ItemsFinished.array {read : List Scan × Bool × List Char} (h : ItemsFinished read) :
    Finished (.array read.1 read.2.1, read.2.2) := by
  rcases read with ⟨items, closed, rest⟩
  rcases h with ⟨rfl, hwhole⟩ | ⟨rfl, hrest⟩
  · exact .inl (by simpa [Scan.isWhole] using hwhole)
  · exact .inr ⟨.array items, hrest⟩

theorem EntriesFinished.object {read : List (Option String × Scan) × Ending × List Char}
    (h : EntriesFinished read) : Finished (.object read.1 read.2.1, read.2.2) := by
  rcases read with ⟨entries, ending, rest⟩
  rcases h with ⟨rfl, hwhole⟩ | ⟨hopen, hrest⟩
  · exact .inl (by simpa [Scan.isWhole] using hwhole)
  · exact .inr ⟨.object entries hopen, hrest⟩

/-- A value with some text left is whole. -/
theorem Finished.isWhole {read : Scan × List Char} (h : Finished read) (hrest : read.2 ≠ []) :
    read.1.isWhole = true :=
  h.resolve_right fun hunfinished => hrest hunfinished.2

theorem ne_nil_of_skipBlanks {text rest : List Char} {c : Char} (h : skipBlanks text = c :: rest) :
    text ≠ [] := by
  rintro rfl
  cases h

theorem scanItems_finished {fuel : Nat} (hvalue : ∀ text, Finished (scanValue fuel text))
    (hmore : ∀ text, ItemsFinished (scanItems fuel text)) (text : List Char) :
    ItemsFinished (scanItems (fuel + 1) text) := by
  rw [scanItems]
  dsimp only
  split
  case h_1 rest hrest =>
    have hitem := (hvalue text).isWhole (ne_nil_of_skipBlanks hrest)
    rcases hmore rest with ⟨hclosed, hwhole⟩ | hopen
    · exact .inl ⟨hclosed, by simp [Scan.areWhole, hitem, hwhole]⟩
    · exact .inr hopen
  case h_2 rest hrest =>
    have hitem := (hvalue text).isWhole (ne_nil_of_skipBlanks hrest)
    exact .inl ⟨rfl, by simp [Scan.areWhole, hitem]⟩
  case h_3 => exact .inr ⟨rfl, rfl⟩

theorem scanEntries_finished {fuel : Nat} (hvalue : ∀ text, Finished (scanValue fuel text))
    (hmore : ∀ text, EntriesFinished (scanEntries fuel text)) (text : List Char) :
    EntriesFinished (scanEntries (fuel + 1) text) := by
  have hcut : ∀ entries, EntriesFinished (entries, .cut, []) := fun _ => .inr ⟨nofun, rfl⟩
  rw [scanEntries]
  split
  case h_2 => exact hcut _
  case h_1 =>
    split
    case h_1 => exact hcut _
    case h_2 key rest _ =>
      split
      case h_2 => exact .inr ⟨nofun, rfl⟩
      case h_1 rest _ =>
        dsimp only
        split
        case h_3 => exact hcut _
        case h_1 more hrest =>
          have hwhole := (hvalue rest).isWhole (ne_nil_of_skipBlanks hrest)
          rcases hmore more with ⟨hclosed, hentries⟩ | hopen
          · exact .inl ⟨hclosed, by simp [Scan.entriesAreWhole, hwhole, hentries]⟩
          · exact .inr hopen
        case h_2 more hrest =>
          have hwhole := (hvalue rest).isWhole (ne_nil_of_skipBlanks hrest)
          exact .inl ⟨rfl, by simp [Scan.entriesAreWhole, hwhole]⟩

theorem scanValue_finished_of {fuel : Nat} (hitems : ∀ text, ItemsFinished (scanItems fuel text))
    (hentries : ∀ text, EntriesFinished (scanEntries fuel text)) (text : List Char) :
    Finished (scanValue (fuel + 1) text) := by
  rw [scanValue]
  split
  case h_1 | h_2 | h_3 => exact .inl rfl
  case h_4 rest _ =>
    split
    · exact .inl rfl
    · exact .inr ⟨.broken, rfl⟩
  case h_5 =>
    split
    · exact .inl rfl
    · exact (hitems _).array
  case h_6 =>
    split
    · exact .inl rfl
    · exact (hentries _).object
  case h_7 =>
    split
    · exact .inl rfl
    · exact .inr ⟨.broken, rfl⟩

theorem finished (fuel : Nat) : (∀ text, Finished (scanValue fuel text)) ∧
    (∀ text, ItemsFinished (scanItems fuel text)) ∧
      ∀ text, EntriesFinished (scanEntries fuel text) := by
  induction fuel with
  | zero =>
    refine ⟨fun _ => .inr ⟨.broken, rfl⟩, fun _ => .inr ⟨rfl, rfl⟩, fun _ => .inr ⟨?_, rfl⟩⟩
    rw [scanEntries]
    exact nofun
  | succ fuel ih =>
    rcases ih with ⟨hvalue, hitems, hentries⟩
    exact ⟨scanValue_finished_of hitems hentries, scanItems_finished hvalue hitems,
      scanEntries_finished hvalue hentries⟩

theorem isWhole_of_scan {text : String} {value : Scan} {trailing : Bool}
    (h : scan text = (value, trailing)) (hfinished : ¬ value.Unfinished) :
    value.isWhole = true := by
  have hread := (finished (2 * text.length + 1)).1 text.toList
  rw [scan, Prod.mk.injEq] at h
  rw [← h.1] at hfinished ⊢
  exact hread.resolve_right fun hunfinished => hfinished hunfinished.1

end AbiFacts.Json
