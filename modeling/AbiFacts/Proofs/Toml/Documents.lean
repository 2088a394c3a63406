import AbiFacts.Proofs.Toml.Values

/-! # TOML documents read back

A document whose values are leaves or tables of leaves and whose keys are distinct is read back as
the table that it denotes (`read?_write`).
-/
namespace AbiFacts.Toml

/-! ## Lines -/

def lineExpression (entry : String × Value) : Expression := .pair [] entry.1 entry.2

theorem writeLine_append (entry : String × Value) (rest : List Char) :
    writeLine entry ++ rest = writePair entry ++ '\n' :: rest := by
  simp [writeLine, writePair]

theorem expression?_writeLine {entry : String × Value} (h : entry.2.IsFlat) (rest : List Char) :
    expression? (writeLine entry ++ rest) = some (lineExpression entry, rest) := by
  have hvalue := value?_write h (.cons (c := '\n') (by decide) rest) (limit - 2)
  have hpair : pair? (value? (limit - 1)) (writePair entry ++ '\n' :: rest) =
      some (([], entry.1, entry.2), '\n' :: rest) :=
    pair?_writePair (skipSpaces_write h _) hvalue
  obtain ⟨c, tail, hwrite, hc⟩ := writePair_begins entry
  have hbracket : c ≠ '[' := hc.ne (by decide) (by decide)
  rw [writeLine_append]
  rw [hwrite, List.cons_append] at hpair ⊢
  rw [expression?]
  · simp only [hpair]
    rfl
  all_goals
    intro more hmore
    exact hbracket (List.cons.inj hmore).1

theorem expression?_header (key : String) (rest : List Char) :
    expression? ('[' :: (writeKey key ++ ']' :: '\n' :: rest)) = some (.header [] key, rest) := by
  have hread := key?_writeKey key (c := ']') (by decide) ('\n' :: rest)
    (by simp [skipSpaces, isSpace])
  obtain ⟨c, tail, hkey, hc⟩ := writeKey_begins key
  have hbracket : c ≠ '[' := hc.ne (by decide) (by decide)
  rw [hkey, List.cons_append] at hread ⊢
  rw [expression?]
  · simp only [hread]
    rfl
  · rintro more ⟨⟩
    exact hbracket rfl

/-! ## Whole texts -/

/-- The expressions that a text is read as, with any fuel that exceeds its length. -/
def ReadsAs (text : List Char) (expressions : List Expression) : Prop :=
  ∀ fuel, text.length < fuel → expressionsWithin? fuel text = some expressions

theorem ReadsAs.nil : ReadsAs [] [] := by
  intro fuel hfuel
  cases fuel with
  | zero => omega
  | succ fuel => rfl

theorem ReadsAs.cons {c : Char} {text rest : List Char} {expression : Expression}
    {expressions : List Expression} (hc : BeginsKey c ∨ c = '[')
    (hread : expression? (c :: text) = some (expression, rest))
    (hlength : rest.length ≤ text.length)
    (hmore : ReadsAs rest expressions) : ReadsAs (c :: text) (expression :: expressions) := by
  have hskip : skipTrivia false (c :: text) = c :: text := by
    have hne : ∀ d, isBareKeyChar d = false → d ≠ '"' → d ≠ '[' → c ≠ d := by
      rintro d hbare hquote hbracket rfl
      obtain hc | hc := hc
      · exact hc.ne hbare hquote rfl
      · exact hbracket hc
    rw [skipTrivia]
    · simp [isSpace, hne ' ' (by decide) (by decide) (by decide),
        hne '\t' (by decide) (by decide) (by decide), hne '#' (by decide) (by decide) (by decide)]
    · exact fun h => hne '\n' (by decide) (by decide) (by decide) h
    · exact fun _ h _ => hne '\r' (by decide) (by decide) (by decide) h
  intro fuel hfuel
  cases fuel with
  | zero => omega
  | succ fuel =>
    rw [List.length_cons] at hfuel
    simp [expressionsWithin?, hskip, hread, hmore fuel (by omega)]

/-- A blank line says nothing. -/
theorem ReadsAs.newline {text : List Char} {expressions : List Expression}
    (h : ReadsAs text expressions) : ReadsAs ('\n' :: text) expressions := by
  intro fuel hfuel
  rw [List.length_cons] at hfuel
  have hsame := h fuel (by omega)
  cases fuel with
  | zero => omega
  | succ fuel => exact hsame

theorem readsAs_lines {lines : Table} (h : ∀ entry ∈ lines, entry.2.IsFlat) {rest : List Char}
    {expressions : List Expression} (hrest : ReadsAs rest expressions) :
    ReadsAs (lines.flatMap writeLine ++ rest) (lines.map lineExpression ++ expressions) := by
  induction lines with
  | nil => exact hrest
  | cons entry lines ih =>
    have hmore := ih fun other hother => h other (by simp [hother])
    have hread := expression?_writeLine (h entry (by simp)) (lines.flatMap writeLine ++ rest)
    obtain ⟨c, tail, hwrite, hc⟩ := writePair_begins entry
    rw [writeLine_append, hwrite, List.cons_append] at hread
    rw [List.flatMap_cons, List.append_assoc, writeLine_append, hwrite, List.cons_append]
    refine .cons (.inl hc) hread ?_ hmore
    simp only [List.length_append, List.length_cons]
    omega

def sectionExpressions (entry : String × Table) : List Expression :=
  .header [] entry.1 :: entry.2.map lineExpression

theorem readsAs_section {entry : String × Table} (h : ∀ line ∈ entry.2, line.2.IsFlat)
    {rest : List Char} {expressions : List Expression} (hrest : ReadsAs rest expressions) :
    ReadsAs (writeSection entry ++ rest) (sectionExpressions entry ++ expressions) := by
  have hlines := readsAs_lines h hrest
  have hsection : writeSection entry ++ rest =
      '[' :: (writeKey entry.1 ++ ']' :: '\n' :: (entry.2.flatMap writeLine ++ rest)) := by
    simp [writeSection]
  rw [hsection]
  refine .cons (.inr rfl) (expression?_header _ _) ?_ hlines
  simp only [List.length_append, List.length_cons]
  omega

theorem readsAs_sections {sections : List (String × Table)}
    (h : ∀ entry ∈ sections, ∀ line ∈ entry.2, line.2.IsFlat) (first : Bool) :
    ReadsAs (Document.writeSections first sections) (sections.flatMap sectionExpressions) := by
  induction sections generalizing first with
  | nil => exact .nil
  | cons entry sections ih =>
    have hmore := ih (fun other hother => h other (by simp [hother])) false
    have hsection := readsAs_section (h entry (by simp)) hmore
    rw [Document.writeSections, List.flatMap_cons, List.append_assoc]
    cases first with
    | true => exact hsection
    | false => exact hsection.newline

/-! ## From expressions to tables -/

theorem Outline.put_append_self {outline : Outline} {key : String} (h : key ∉ keys outline)
    (old new : Node) : (outline ++ [(key, old)]).put key new = outline ++ [(key, new)] := by
  have hsame : outline.put key new = outline := by
    refine (List.map_congr_left fun entry hentry => ?_).trans (List.map_id outline)
    have hne : entry.1 ≠ key := fun he => h (he ▸ mem_keys_of_mem hentry)
    simp [hne]
  rw [put] at hsame
  simp [put, hsame]

theorem Outline.addTable_new {outline : Outline} {key : String} (h : key ∉ keys outline) :
    addTable [] key outline = some (outline ++ [(key, .table .explicit [])]) := by
  simp [addTable, descend, lookup_eq_none.mpr h]

/-- Under the header of the last table, a change falls to that table. -/
theorem Outline.descend_last {outline inner : Outline} {key : String} (h : key ∉ keys outline)
    (change : Origin → Outline → Option Outline) :
    descend false change [key] .explicit (outline ++ [(key, .table .explicit inner)]) =
      (change .explicit inner).map fun new => outline ++ [(key, .table .explicit new)] := by
  have hlookup : (outline ++ [(key, Node.table .explicit inner)]).lookup key =
      some (.table .explicit inner) := by
    simp [List.lookup_append, lookup_eq_none.mpr h]
  rw [descend, hlookup]
  cases hchange : change .explicit inner <;> simp [descend, hchange, put_append_self h]

theorem outline?_lines {lines : Table} {outline : Outline} {expressions : List Expression}
    (h : (keys outline ++ keys lines).Nodup) :
    outline? (lines.map lineExpression ++ expressions) [] outline =
      outline? expressions [] (outline ++ Outline.ofTable lines) := by
  induction lines generalizing outline with
  | nil => simp [Outline.ofTable]
  | cons entry lines ih =>
    have hnew : entry.1 ∉ keys outline := not_mem_of_nodup_append h
    have hmore : (keys (outline ++ [(entry.1, Node.value entry.2)]) ++ keys lines).Nodup := by
      simpa using h
    rw [List.map_cons, List.cons_append, lineExpression, outline?]
    simp [Outline.descend, Outline.addValue_new hnew, ih hmore, Outline.ofTable]

theorem outline?_sectionLines {lines : Table} {outline inner : Outline} {key : String}
    {expressions : List Expression} (hkey : key ∉ keys outline)
    (h : (keys inner ++ keys lines).Nodup) :
    outline? (lines.map lineExpression ++ expressions) [key]
        (outline ++ [(key, .table .explicit inner)]) =
      outline? expressions [key]
        (outline ++ [(key, .table .explicit (inner ++ Outline.ofTable lines))]) := by
  induction lines generalizing inner with
  | nil => simp [Outline.ofTable]
  | cons entry lines ih =>
    have hnew : entry.1 ∉ keys inner := not_mem_of_nodup_append h
    have hmore : (keys (inner ++ [(entry.1, Node.value entry.2)]) ++ keys lines).Nodup := by
      simpa using h
    rw [List.map_cons, List.cons_append, lineExpression, outline?, Outline.descend_last hkey]
    simp [Outline.addValue_new hnew, ih hmore, Outline.ofTable]

def Outline.ofSections (sections : List (String × Table)) : Outline :=
  sections.map fun entry => (entry.1, .table .explicit (ofTable entry.2))

theorem outline?_sections {sections : List (String × Table)} {outline : Outline}
    (table : List String) (h : (keys outline ++ keys sections).Nodup)
    (hlines : ∀ entry ∈ sections, (keys entry.2).Nodup) :
    outline? (sections.flatMap sectionExpressions) table outline =
      some (outline ++ Outline.ofSections sections) := by
  induction sections generalizing outline table with
  | nil => simp [outline?, Outline.ofSections]
  | cons entry sections ih =>
    have hnew : entry.1 ∉ keys outline := not_mem_of_nodup_append h
    have hmore : (keys (outline ++ [(entry.1, Node.table .explicit (Outline.ofTable entry.2))]) ++
        keys sections).Nodup := by
      simpa using h
    have hempty : (keys ([] : Outline) ++ keys entry.2).Nodup := by
      simpa using hlines entry (by simp)
    have hrest := ih [entry.1] hmore fun other hother => hlines other (by simp [hother])
    rw [List.flatMap_cons, sectionExpressions, List.cons_append, outline?,
      Outline.addTable_new hnew, Option.bind_eq_bind, Option.bind_some, List.nil_append,
      outline?_sectionLines hnew hempty, List.nil_append, hrest]
    simp [Outline.ofSections]

theorem finishEntries_append (a b : Outline) :
    Node.finishEntries (a ++ b) = Node.finishEntries a ++ Node.finishEntries b := by
  induction a with
  | nil => rfl
  | cons entry a ih => simp [Node.finishEntries, ih]

theorem finishEntries_ofSections (sections : List (String × Table)) :
    Node.finishEntries (Outline.ofSections sections) =
      sections.map fun entry => (entry.1, .table entry.2) := by
  induction sections with
  | nil => rfl
  | cons entry sections ih =>
    rw [Outline.ofSections, List.map_cons, Node.finishEntries, ← Outline.ofSections, ih,
      Node.finish, finishEntries_ofTable, List.map_cons]

/-! ## Reading a written document -/

/-- The values of a document are flat and its keys are distinct, in each section and on the top
level. -/
structure Document.IsRecord (document : Document) : Prop where
  keys : (keys document.table).Nodup
  sectionKeys : ∀ entry ∈ document.sections, (AbiFacts.keys entry.2).Nodup
  lines : ∀ entry ∈ document.lines, entry.2.IsFlat
  sectionLines : ∀ entry ∈ document.sections, ∀ line ∈ entry.2, line.2.IsFlat

theorem Document.keys_table (document : Document) :
    AbiFacts.keys document.table =
      AbiFacts.keys document.lines ++ AbiFacts.keys document.sections := by
  rw [table, keys_append]
  exact congrArg _ (keys_map _ _)

theorem skipByteOrderMark_of_ne {text : List Char} (h : text.head? ≠ some '\uFEFF') :
    skipByteOrderMark text = text := by
  cases text with
  | nil => rfl
  | cons c text =>
    rw [skipByteOrderMark]
    rintro rest ⟨⟩
    exact h rfl

theorem Document.head?_write (document : Document) :
    document.write.toList.head? ≠ some '\uFEFF' := by
  rw [write, String.toList_ofList]
  cases document.lines with
  | nil => cases document.sections <;> simp [writeSections, writeSection]
  | cons entry lines =>
    obtain ⟨c, tail, hkey, hc⟩ := writeKey_begins entry.1
    have hne : c ≠ '\uFEFF' := hc.ne (by decide) (by decide)
    simp [writeLine, hkey, hne]

/-- What is written for a document denotes its table. -/
theorem read?_write {document : Document} (h : document.IsRecord) :
    read? document.write = some document.table := by
  have hreads : ReadsAs document.write.toList
      (document.lines.map lineExpression ++ document.sections.flatMap sectionExpressions) := by
    rw [Document.write, String.toList_ofList]
    exact readsAs_lines h.lines (readsAs_sections h.sectionLines _)
  have hkeys := document.keys_table ▸ h.keys
  have hlines : (AbiFacts.keys ([] : Outline) ++ AbiFacts.keys document.lines).Nodup := by
    simpa using (List.nodup_append.mp hkeys).1
  have hsections : (AbiFacts.keys (Outline.ofTable document.lines) ++
      AbiFacts.keys document.sections).Nodup := by
    simpa using hkeys
  rw [read?, skipByteOrderMark_of_ne document.head?_write, expressions?,
    hreads _ (Nat.lt_succ_self _)]
  simp [outline?_lines hlines, outline?_sections [] hsections h.sectionKeys, finishEntries_append,
    finishEntries_ofSections, Document.table]

/-- A document of lines alone denotes its lines. -/
theorem read?_write_flatLines {lines : Table} (hkeys : (keys lines).Nodup)
    (hflat : ∀ entry ∈ lines, entry.2.IsFlat) :
    read? (Document.write ⟨lines, []⟩) = some lines := by
  have hrecord : Document.IsRecord ⟨lines, []⟩ := by
    refine ⟨?_, by simp, hflat, by simp⟩
    simpa [Document.table] using hkeys
  simpa [Document.table] using read?_write hrecord

theorem read?_write_lines {lines : Table} (hkeys : (keys lines).Nodup)
    (hleaf : ∀ entry ∈ lines, entry.2.IsLeaf) :
    read? (Document.write ⟨lines, []⟩) = some lines :=
  read?_write_flatLines hkeys fun entry hentry => .leaf (hleaf entry hentry)

end AbiFacts.Toml
