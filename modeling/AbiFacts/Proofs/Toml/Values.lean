import AbiFacts.Proofs.Tables
import AbiFacts.Proofs.Toml.Numerals
import AbiFacts.Proofs.Toml.Strings
import AbiFacts.Toml.Written

/-! # TOML keys and values read back

Keys may be any text. Texts, truth values and integers of 64 bits are read back before anything that
a value may end at, and so are tables of them that stand in braces on one line (`value?_write`).
-/
namespace AbiFacts.Toml

open Decimal (BeginsInteger Delimits)

/-! ## Keys -/

def BeginsKey (c : Char) : Prop := isBareKeyChar c = true ∨ c = '"'

theorem BeginsKey.ne {c d : Char} (h : BeginsKey c) (hbare : isBareKeyChar d = false)
    (hquote : d ≠ '"') : c ≠ d := by
  rintro rfl
  obtain h | h := h
  · exact absurd h (by simp [hbare])
  · exact hquote h

theorem writeKey_begins (key : String) : ∃ c tail, writeKey key = c :: tail ∧ BeginsKey c := by
  rw [writeKey]
  split
  · next h =>
    simp only [Bool.and_eq_true, Bool.not_eq_true', List.all_eq_true] at h
    have hne : key.toList ≠ [] := by
      intro hempty
      simp [String.toList_eq_nil_iff.mp hempty] at h
    obtain ⟨c, tail, hkey⟩ := List.exists_cons_of_ne_nil hne
    exact ⟨c, tail, hkey, .inl (h.2 c (by simp [hkey]))⟩
  · exact ⟨'"', _, rfl, .inr rfl⟩

theorem skipSpaces_of_begins {c : Char} (h : BeginsKey c) (tail : List Char) :
    skipSpaces (c :: tail) = c :: tail := by
  have hspace := h.ne (d := ' ') (by decide) (by decide)
  have htab := h.ne (d := '\t') (by decide) (by decide)
  simp [skipSpaces, isSpace, hspace, htab]

theorem keyPart?_writeKey (key : String) {c : Char} (hc : isBareKeyChar c = false)
    (rest : List Char) : keyPart? (writeKey key ++ c :: rest) = some (key, c :: rest) := by
  rw [writeKey]
  split
  · next h =>
    simp only [Bool.and_eq_true, Bool.not_eq_true', List.all_eq_true] at h
    have htake : (key.toList ++ c :: rest).takeWhile isBareKeyChar = key.toList := by
      simp [List.takeWhile_append_of_pos h.2, hc]
    have hdrop : (key.toList ++ c :: rest).dropWhile isBareKeyChar = c :: rest := by
      simp [List.dropWhile_append_of_pos h.2, hc]
    cases hkey : key.toList with
    | nil => simp [String.toList_eq_nil_iff.mp hkey] at h
    | cons d tail =>
      have hd : BeginsKey d := .inl (h.2 d (by simp [hkey]))
      rw [hkey] at htake hdrop
      rw [List.cons_append, keyPart?]
      · rw [← List.cons_append, htake, hdrop]
        rw [← String.ofList_toList (s := key), hkey]
      · rintro more ⟨⟩
        exact absurd h.2 (by simp [hkey, isBareKeyChar])
      · rintro more ⟨⟩
        exact absurd h.2 (by simp [hkey, isBareKeyChar])
  · have hread := lineString?_quoteBasic key.toList (c :: rest)
    rw [String.ofList_toList] at hread
    exact hread

/-- A key is read up to the spaces after it. -/
theorem key?_writeKey (key : String) {c : Char} (hc : isBareKeyChar c = false) (rest : List Char)
    (hdot : (skipSpaces (c :: rest)).head? ≠ some '.') :
    key? (writeKey key ++ c :: rest) = some (([], key), skipSpaces (c :: rest)) := by
  have hpart := keyPart?_writeKey key hc rest
  obtain ⟨d, tail, hkey, hd⟩ := writeKey_begins key
  rw [hkey, List.cons_append] at hpart ⊢
  change keyWithin? (78 + 1) _ = _
  rw [keyWithin?, skipSpaces_of_begins hd, hpart]
  dsimp only [Option.bind_eq_bind, Option.bind_some]
  split
  · next hmore =>
    rw [hmore] at hdot
    exact absurd rfl hdot
  · rfl

/-! ## Leaves -/

/-- Texts, truth values and integers: values that hold no others. -/
def Value.IsLeaf : Value → Prop
  | .string _ | .boolean _ => True
  | .integer value => FitsInt64 value
  | _ => False

/-- A character that neither spaces nor nested values begin with. -/
def BeginsLeaf (c : Char) : Prop := c ∉ [' ', '\t', '[', '\x7b']

theorem beginsLeaf_of_beginsInteger {c : Char} (h : BeginsInteger c) : BeginsLeaf c := by
  simp [BeginsLeaf, h.ne (d := ' ') (by decide) (by decide),
    h.ne (d := '\t') (by decide) (by decide), h.ne (d := '[') (by decide) (by decide),
    h.ne (d := '\x7b') (by decide) (by decide)]

theorem quote_begins (text : String) : ∃ c tail, quote text = c :: tail ∧ (c = '"' ∨ c = '\'') := by
  rw [quote]
  cases Form.of text.toList with
  | basic | multilineBasic => exact ⟨_, _, rfl, .inl rfl⟩
  | literal | multilineLiteral => exact ⟨_, _, rfl, .inr rfl⟩

theorem Value.IsLeaf.begins {value : Value} (h : value.IsLeaf) :
    ∃ c tail, value.write = c :: tail ∧ BeginsLeaf c := by
  cases value with
  | string text =>
    obtain ⟨c, tail, hwrite, hc⟩ := quote_begins text
    refine ⟨c, tail, by rw [Value.write, hwrite], ?_⟩
    obtain rfl | rfl := hc <;> simp [BeginsLeaf]
  | boolean value =>
    cases value
    · exact ⟨'f', _, rfl, by simp [BeginsLeaf]⟩
    · exact ⟨'t', _, rfl, by simp [BeginsLeaf]⟩
  | integer value =>
    obtain ⟨c, tail, hwrite, hc⟩ := toString_begins value
    exact ⟨c, tail, by rw [Value.write, hwrite], beginsLeaf_of_beginsInteger hc⟩
  | _ => exact absurd h (by simp [IsLeaf])

theorem endsQuotes_of_delimits {rest : List Char} (h : Delimits rest) : EndsQuotes rest :=
  ⟨h.head?_ne (by decide), h.head?_ne (by decide)⟩

theorem scalar?_number {c : Char} (h : BeginsInteger c) {text : List Char}
    (hdatetime : datetime? (c :: text) = none) : scalar? (c :: text) = number? (c :: text) := by
  unfold scalar?
  split
  case h_5 => simp [hdatetime]
  all_goals
    next heq =>
      cases heq
      exact absurd rfl (h.ne (by decide) (by decide))

theorem scalar?_write {value : Value} (h : value.IsLeaf) {rest : List Char}
    (hrest : Delimits rest) : scalar? (value.write ++ rest) = some (value, rest) := by
  cases value with
  | string text =>
    have hread := string?_quote text (endsQuotes_of_delimits hrest)
    obtain ⟨c, tail, hwrite, hc⟩ := quote_begins text
    rw [hwrite, List.cons_append] at hread
    rw [Value.write, hwrite, List.cons_append]
    obtain rfl | rfl := hc <;> simp [scalar?, hread]
  | boolean value => cases value <;> rfl
  | integer value =>
    have hread := number?_toString h hrest
    have hdatetime := datetime?_toString value hrest
    obtain ⟨c, tail, hwrite, hc⟩ := toString_begins value
    rw [hwrite, List.cons_append] at hread hdatetime
    rw [Value.write, hwrite, List.cons_append, scalar?_number hc hdatetime, hread]
  | _ => exact absurd h (by simp [Value.IsLeaf])

/-- However deep values may nest here, a leaf is read. -/
theorem value?_leaf {value : Value} (h : value.IsLeaf) {rest : List Char}
    (hrest : Delimits rest) (room : Nat) :
    value? room (value.write ++ rest) = some (value, rest) := by
  have hscalar := scalar?_write h hrest
  cases room with
  | zero => exact hscalar
  | succ room =>
    obtain ⟨c, tail, hwrite, hc⟩ := h.begins
    rw [hwrite, List.cons_append] at hscalar ⊢
    rw [value?]
    · exact hscalar
    all_goals
      rintro _ ⟨⟩
      exact hc (by simp)

theorem skipSpaces_leaf {value : Value} (h : value.IsLeaf) (rest : List Char) :
    skipSpaces (value.write ++ rest) = value.write ++ rest := by
  obtain ⟨c, tail, hwrite, hc⟩ := h.begins
  simp only [BeginsLeaf, List.mem_cons, not_or] at hc
  simp [hwrite, skipSpaces, isSpace, hc]

/-! ## Pairs -/

def writePair (entry : String × Value) : List Char :=
  writeKey entry.1 ++ [' ', '=', ' '] ++ entry.2.write

theorem writePair_begins (entry : String × Value) :
    ∃ c tail, writePair entry = c :: tail ∧ BeginsKey c := by
  obtain ⟨c, tail, hkey, hc⟩ := writeKey_begins entry.1
  exact ⟨c, tail ++ [' ', '=', ' '] ++ entry.2.write, by simp [writePair, hkey], hc⟩

theorem skipSpaces_writePair (entry : String × Value) (rest : List Char) :
    skipSpaces (writePair entry ++ rest) = writePair entry ++ rest := by
  obtain ⟨c, tail, hpair, hc⟩ := writePair_begins entry
  rw [hpair]
  exact skipSpaces_of_begins hc _

/-- Where its value is read, a pair is read. -/
theorem pair?_writePair {entry : String × Value} {room : Nat} {rest : List Char}
    (hspaces : skipSpaces (entry.2.write ++ rest) = entry.2.write ++ rest)
    (hvalue : value? room (entry.2.write ++ rest) = some (entry.2, rest)) :
    pair? (value? room) (writePair entry ++ rest) = some (([], entry.1, entry.2), rest) := by
  have hkey := key?_writeKey entry.1 (c := ' ') (by decide)
    ('=' :: ' ' :: (entry.2.write ++ rest)) (by simp [skipSpaces, isSpace])
  have hequals : skipSpaces (' ' :: '=' :: ' ' :: (entry.2.write ++ rest)) =
      '=' :: ' ' :: (entry.2.write ++ rest) := rfl
  have hgap : skipSpaces (' ' :: (entry.2.write ++ rest)) = entry.2.write ++ rest := hspaces
  rw [hequals] at hkey
  simp [writePair, pair?, hkey, after?, hgap, hvalue]

theorem pair?_leaf {entry : String × Value} (h : entry.2.IsLeaf) (room : Nat) {rest : List Char}
    (hrest : Delimits rest) :
    pair? (value? room) (writePair entry ++ rest) = some (([], entry.1, entry.2), rest) :=
  pair?_writePair (skipSpaces_leaf h rest) (value?_leaf h hrest room)

/-- Spaces before a key are skipped. -/
theorem pair?_space (value? : Reader) (text : List Char) :
    pair? value? (' ' :: text) = pair? value? text := rfl

/-! ## Growing tables -/

def Outline.ofTable (table : Table) : Outline :=
  table.map fun entry => (entry.1, .value entry.2)

@[simp] theorem Outline.keys_ofTable (table : Table) : keys (ofTable table) = keys table :=
  keys_map _ _

/-- A key that comes next among distinct keys is not there yet. -/
theorem not_mem_of_nodup_append {before after : List String} {key : String}
    (h : (before ++ key :: after).Nodup) : key ∉ before := by
  intro hmem
  exact (List.nodup_append.mp h).2.2 _ hmem _ (.head _) rfl

theorem Outline.addValue_new {outline : Outline} {key : String} (h : key ∉ keys outline)
    (value : Value) :
    addValue [] key value .explicit outline = some (outline ++ [(key, .value value)]) := by
  simp [addValue, descend, lookup_eq_none.mpr h]

@[simp] theorem finishEntries_ofTable (table : Table) :
    Node.finishEntries (Outline.ofTable table) = table := by
  induction table with
  | nil => rfl
  | cons entry table ih =>
    rw [Outline.ofTable, List.map_cons, Node.finishEntries, ← Outline.ofTable, ih, Node.finish]

/-! ## Tables on one line -/

theorem length_le_writeEntries (entries : Table) :
    entries.length ≤ (writeEntries entries).length := by
  induction entries with
  | nil => simp
  | cons entry entries ih =>
    rw [writeEntries]
    simp only [List.length_cons, List.length_append]
    omega

theorem pairs?_space (value? : Reader) (outline : Outline) (fuel : Nat) (text : List Char) :
    pairs? value? outline fuel (' ' :: text) = pairs? value? outline fuel text := by
  cases fuel with
  | zero => rfl
  | succ fuel => rw [pairs?, pairs?, pair?_space]

/-- A pair with a new key is added, and the pairs after its comma follow. -/
theorem pairs?_comma {room : Nat} {entry : String × Value} (h : entry.2.IsLeaf) {outline : Outline}
    (hnew : entry.1 ∉ keys outline) (fuel : Nat) (rest : List Char) :
    pairs? (value? room) outline (fuel + 1) (writePair entry ++ ',' :: ' ' :: rest) =
      pairs? (value? room) (outline ++ [(entry.1, .value entry.2)]) fuel rest := by
  have hpair := pair?_leaf h room (.cons (c := ',') (by decide) (' ' :: rest))
  have hcomma : skipSpaces (',' :: ' ' :: rest) = ',' :: ' ' :: rest := rfl
  rw [pairs?, hpair]
  simp [Outline.addValue_new hnew, hcomma, pairs?_space]

theorem pairs?_brace {room : Nat} {entry : String × Value} (h : entry.2.IsLeaf) {outline : Outline}
    (hnew : entry.1 ∉ keys outline) (fuel : Nat) (rest : List Char) :
    pairs? (value? room) outline (fuel + 1) (writePair entry ++ ' ' :: '\x7d' :: rest) =
      some (outline ++ [(entry.1, .value entry.2)], rest) := by
  have hpair := pair?_leaf h room (.cons (c := ' ') (by decide) ('\x7d' :: rest))
  have hbrace : skipSpaces (' ' :: '\x7d' :: rest) = '\x7d' :: rest := rfl
  rw [pairs?, hpair]
  simp [Outline.addValue_new hnew, hbrace]

/-- The pairs of a table with distinct keys are added one after another, up to its closing brace. -/
theorem pairs?_write (room : Nat) {entry : String × Value} {entries : Table}
    (h : ∀ pair ∈ entry :: entries, pair.2.IsLeaf) (outline : Outline)
    (hkeys : (keys outline ++ keys (entry :: entries)).Nodup) {fuel : Nat}
    (hfuel : entries.length < fuel) (rest : List Char) :
    pairs? (value? room) outline fuel (writePair entry ++ (writeEntries entries ++ rest)) =
      some (outline ++ Outline.ofTable (entry :: entries), rest) := by
  obtain ⟨fuel, rfl⟩ : ∃ more, fuel = more + 1 := ⟨fuel - 1, by omega⟩
  induction entries generalizing entry outline fuel with
  | nil => exact pairs?_brace (h entry (by simp)) (not_mem_of_nodup_append hkeys) fuel rest
  | cons next entries ih =>
    obtain ⟨fuel, rfl⟩ : ∃ more, fuel = more + 1 := ⟨fuel - 1, by simp at hfuel; omega⟩
    have hmore : (keys (outline ++ [(entry.1, Node.value entry.2)]) ++
        keys (next :: entries)).Nodup := by
      simpa using hkeys
    have hrest := ih (fun pair hpair => h pair (.tail _ hpair)) _ hmore fuel
      (by simp at hfuel; omega)
    have htext : writeEntries (next :: entries) ++ rest =
        ',' :: ' ' :: (writePair next ++ (writeEntries entries ++ rest)) := by
      simp [writeEntries, writePair]
    rw [htext, pairs?_comma (h entry (by simp)) (not_mem_of_nodup_append hkeys), hrest]
    simp [Outline.ofTable]

theorem value?_table {entries : Table} (h : ∀ entry ∈ entries, entry.2.IsLeaf)
    (hkeys : (keys entries).Nodup) (room : Nat) (rest : List Char) :
    value? (room + 1) (writeTable entries ++ rest) = some (.table entries, rest) := by
  cases entries with
  | nil => rfl
  | cons entry entries =>
    have htext : writeTable (entry :: entries) ++ rest =
        '\x7b' :: ' ' :: (writePair entry ++ (writeEntries entries ++ rest)) := by
      simp [writeTable, writePair]
    have hspaces : skipSpaces (' ' :: (writePair entry ++ (writeEntries entries ++ rest))) =
        writePair entry ++ (writeEntries entries ++ rest) :=
      skipSpaces_writePair entry _
    have hfuel : entries.length < (writePair entry ++ (writeEntries entries ++ rest)).length + 1 := by
      have hle := length_le_writeEntries entries
      simp only [List.length_append]
      omega
    have hread := pairs?_write room h [] (by simpa using hkeys) hfuel rest
    obtain ⟨c, tail, hpair, hc⟩ := writePair_begins entry
    have hbrace : c ≠ '\x7d' := hc.ne (by decide) (by decide)
    rw [htext, value?, hspaces]
    simp only [hpair, List.cons_append] at hread ⊢
    split
    · next hclosed => exact absurd (List.cons.inj hclosed).1 hbrace
    · rw [hread, List.nil_append, Option.map_some, finishEntries_ofTable]

/-! ## Values on a line -/

/-- Leaves, and tables of leaves under distinct keys. -/
inductive Value.IsFlat : Value → Prop where
  | leaf {value : Value} (h : value.IsLeaf) : IsFlat value
  | table {entries : Table} (h : ∀ entry ∈ entries, entry.2.IsLeaf) (hkeys : (keys entries).Nodup) :
      IsFlat (.table entries)

/-- Where tables may nest at all, a leaf or a table of leaves is read. -/
theorem value?_write {value : Value} (h : value.IsFlat) {rest : List Char}
    (hrest : Delimits rest) (room : Nat) :
    value? (room + 1) (value.write ++ rest) = some (value, rest) := by
  cases h with
  | leaf h => exact value?_leaf h hrest (room + 1)
  | table h hkeys => exact value?_table h hkeys room rest

theorem skipSpaces_write {value : Value} (h : value.IsFlat) (rest : List Char) :
    skipSpaces (value.write ++ rest) = value.write ++ rest := by
  cases h with
  | leaf h => exact skipSpaces_leaf h rest
  | @table entries _ _ => cases entries <;> rfl

end AbiFacts.Toml
