import AbiFacts.Proofs.Text.Spelling
import AbiFacts.Toml.Text

/-! # TOML strings read back

Each of the four forms is undone by reading, whatever follows the closing quotes, and every text is
written in a form that suits it. Hence a written text reads back (`string?_quote`).
-/
namespace AbiFacts.Toml

open Text (Spells)

/-! ## Single characters -/

theorem isPlain_of_not_isControl {c : Char} (h : isControl c = false) (hline : c ≠ '\n') :
    isPlain c = true := by
  simp only [isControl, Bool.or_eq_false_iff, Bool.and_eq_false_iff, decide_eq_false_iff_not,
    bne_eq_false_iff_eq, beq_eq_false_iff_ne] at h
  simp only [isPlain, Bool.or_eq_true, beq_iff_eq, Bool.and_eq_true, decide_eq_true_eq, bne_iff_ne]
  obtain ⟨(hlow | htab) | hfeed, hdelete⟩ := h
  · exact .inr ⟨by omega, hdelete⟩
  · exact .inl htab
  · exact absurd hfeed hline

theorem ne_carriageReturn {c : Char} (h : isControl c = false) : c ≠ '\r' := by
  rintro rfl
  exact absurd h (by decide)

theorem plainStep_eq {c : Char} (h : isControl c = false) (hline : c ≠ '\n') (tail : List Char) :
    plainStep (c :: tail) = .units [c] tail := by
  rw [plainStep, if_pos (isPlain_of_not_isControl h hline)]

theorem lineStep_eq {c : Char} (h : isControl c = false) (tail : List Char) :
    lineStep (c :: tail) = .units [c] tail := by
  by_cases hline : c = '\n'
  · subst hline
    rfl
  · have hnone : lineBreak? (c :: tail) = none := by
      simp [lineBreak?, hline, ne_carriageReturn h]
    rw [lineStep, hnone]
    exact plainStep_eq h hline tail

/-- What both basic forms do with a character: it stands for itself, or an escape stands for it that
is not taken for the end of a line. -/
theorem escape_cases (c : Char) :
    (escape c = [c] ∧ isControl c = false ∧ c ≠ '\\') ∨
      ∃ body, escape c = '\\' :: body ∧
        ∀ tail, escapeStep (body ++ tail) = .units [c] tail ∧
          lineBreak? (skipSpaces (body ++ tail)) = none := by
  unfold escape
  split
  case h_6 _ _ _ _ _ hbackslash =>
    cases hcontrol : isControl c with
    | false => exact .inl ⟨rfl, rfl, hbackslash⟩
    | true =>
      refine .inr ⟨'u' :: Text.hex4 Text.upperDigit c.toNat, rfl, fun tail => ⟨?_, rfl⟩⟩
      have hsmall : c.toNat < 65536 := by
        simp only [isControl, Bool.or_eq_true, Bool.and_eq_true, decide_eq_true_eq,
          beq_iff_eq] at hcontrol
        omega
      change scalarEscape 4 (Text.hex4 Text.upperDigit c.toNat ++ tail) = _
      rw [scalarEscape, Text.hex?_hex4 Text.digit?_upperDigit hsmall]
      simp
  all_goals exact .inr ⟨_, rfl, fun tail => ⟨rfl, rfl⟩⟩

theorem escape_ne_nil (c : Char) : escape c ≠ [] := by
  obtain ⟨h, -⟩ | ⟨body, h, -⟩ := escape_cases c <;> simp [h]

theorem escapeInLine_of_ne {c : Char} (hline : c ≠ '\n') (hquote : c ≠ '"') :
    escapeInLine c = escape c := by
  unfold escapeInLine
  split
  · exact absurd rfl hline
  · exact absurd rfl hquote
  · rfl

/-! ## Forms on one line -/

theorem basicStep_escapeInLine (c : Char) (tail : List Char) :
    basicStep (escapeInLine c ++ tail) = .units [c] tail := by
  by_cases hline : c = '\n'
  · subst hline
    rfl
  by_cases hquote : c = '"'
  · subst hquote
    rfl
  rw [escapeInLine_of_ne hline hquote]
  obtain ⟨h, hcontrol, hbackslash⟩ | ⟨body, h, hbody⟩ := escape_cases c
  · rw [h, List.singleton_append, basicStep]
    · exact plainStep_eq hcontrol hline tail
    · rintro _ ⟨⟩
      exact hquote rfl
    · rintro _ ⟨⟩
      exact hbackslash rfl
  · rw [h]
    exact (hbody tail).1

theorem escapeInLine_ne_nil (c : Char) : escapeInLine c ≠ [] := by
  unfold escapeInLine
  split
  · simp
  · simp
  · exact escape_ne_nil _

theorem spells_quoteBasic (text rest : List Char) :
    Spells basicStep (text.flatMap escapeInLine ++ '"' :: rest) text rest := by
  have h : Spells basicStep (text.flatMap escapeInLine ++ '"' :: rest) (text.map id ++ []) rest :=
    .flatMap (fun c _ => escapeInLine_ne_nil c) (fun c _ => basicStep_escapeInLine c) (.stop rfl)
  simpa using h

theorem spells_literal {text : List Char}
    (h : ∀ c ∈ text, isControl c = false ∧ c ≠ '\n' ∧ c ≠ '\'')
    (rest : List Char) : Spells literalStep (text ++ '\'' :: rest) text rest := by
  have hread : ∀ c ∈ text, ∀ tail, literalStep ([c] ++ tail) = .units [c] tail := by
    intro c hc tail
    obtain ⟨hcontrol, hline, hquote⟩ := h c hc
    rw [List.singleton_append, literalStep]
    · exact plainStep_eq hcontrol hline tail
    · rintro _ ⟨⟩
      exact hquote rfl
  have hspells : Spells literalStep (text.flatMap (fun c => [c]) ++ '\'' :: rest)
      (text.map id ++ []) rest :=
    .flatMap (by simp) hread (.stop rfl)
  simpa using hspells

/-! ## Forms on several lines -/

/-- A double quote that no two others follow stands for itself. -/
theorem multilineBasicStep_quote {tail : List Char} (h : ∀ rest, tail ≠ '"' :: '"' :: rest) :
    multilineBasicStep ('"' :: tail) = .units ['"'] tail := by
  rw [multilineBasicStep]
  · exact lineStep_eq (by decide) tail
  all_goals simp_all

/-- A single quote that no two others follow stands for itself. -/
theorem multilineLiteralStep_quote {tail : List Char} (h : ∀ rest, tail ≠ '\'' :: '\'' :: rest) :
    multilineLiteralStep ('\'' :: tail) = .units ['\''] tail := by
  rw [multilineLiteralStep]
  · exact lineStep_eq (by decide) tail
  all_goals simp_all

theorem multilineBasicStep_escape {c : Char} (hquote : c ≠ '"') (tail : List Char) :
    multilineBasicStep (escape c ++ tail) = .units [c] tail := by
  obtain ⟨h, hcontrol, hbackslash⟩ | ⟨body, h, hbody⟩ := escape_cases c
  · rw [h, List.singleton_append, multilineBasicStep]
    · exact lineStep_eq hcontrol tail
    all_goals simp_all
  · rw [h, List.cons_append, multilineBasicStep]
    rw [(hbody tail).2]
    exact (hbody tail).1

/-- The text after closing quotes does not go on with a quote of either sort. -/
def EndsQuotes (rest : List Char) : Prop :=
  rest.head? ≠ some '"' ∧ rest.head? ≠ some '\''

theorem multilineBasicStep_close {rest : List Char} (h : EndsQuotes rest) :
    multilineBasicStep ('"' :: '"' :: '"' :: rest) = .stop [] rest := by
  rw [multilineBasicStep]
  all_goals
    rintro tail ⟨⟩
    exact h.1 rfl

theorem multilineBasicStep_close_one {rest : List Char} (h : EndsQuotes rest) :
    multilineBasicStep ('"' :: '"' :: '"' :: '"' :: rest) = .stop ['"'] rest := by
  rw [multilineBasicStep]
  rintro tail ⟨⟩
  exact h.1 rfl

theorem multilineLiteralStep_close {rest : List Char} (h : EndsQuotes rest) :
    multilineLiteralStep ('\'' :: '\'' :: '\'' :: rest) = .stop [] rest := by
  rw [multilineLiteralStep]
  all_goals
    rintro tail ⟨⟩
    exact h.2 rfl

theorem multilineLiteralStep_close_one {rest : List Char} (h : EndsQuotes rest) :
    multilineLiteralStep ('\'' :: '\'' :: '\'' :: '\'' :: rest) = .stop ['\''] rest := by
  rw [multilineLiteralStep]
  rintro tail ⟨⟩
  exact h.2 rfl

theorem escape_head_ne {c : Char} (hquote : c ≠ '"') (tail rest : List Char) :
    escape c ++ tail ≠ '"' :: rest := by
  obtain ⟨h, -⟩ | ⟨body, h, -⟩ := escape_cases c <;> simp [h, hquote]

/-- After two quotes of a run the next one is escaped. -/
theorem escapeLines_two_ne {text : List Char} (hne : text ≠ []) (tail rest : List Char) :
    escapeLines 2 text ++ tail ≠ '"' :: rest := by
  cases text with
  | nil => exact absurd rfl hne
  | cons c text =>
    by_cases hquote : c = '"'
    · simp [escapeLines, hquote]
    · simpa [escapeLines, hquote] using escape_head_ne hquote _ rest

/-- After one quote of a run, two more do not follow unless the closing ones are among them. -/
theorem escapeLines_one_ne {text : List Char} (hne : text ≠ []) (hlast : text ≠ ['"'])
    (tail rest : List Char) : escapeLines 1 text ++ tail ≠ '"' :: '"' :: rest := by
  cases text with
  | nil => exact absurd rfl hne
  | cons c text =>
    by_cases hquote : c = '"'
    · subst hquote
      have hmore : text ≠ [] := fun h => hlast (by rw [h])
      simpa [escapeLines] using escapeLines_two_ne hmore tail rest
    · simpa [escapeLines, hquote] using escape_head_ne hquote _ _

/-- The inside of several lines is read back, however many quotes of its first run came before. -/
theorem spells_escapeLines {text rest : List Char} (hrest : EndsQuotes rest) {quotes : Nat}
    (hquotes : quotes ≤ 2) :
    Spells multilineBasicStep (escapeLines quotes text ++ '"' :: '"' :: '"' :: rest) text rest := by
  induction text generalizing quotes with
  | nil => exact .stop (multilineBasicStep_close hrest)
  | cons c text ih =>
    by_cases hquote : c = '"'
    · subst hquote
      by_cases htwo : quotes = 2
      · simpa [escapeLines, htwo] using Spells.cons (by simp : ['\\', '"'] ≠ []) rfl
          (ih (Nat.zero_le 2))
      · have hread : escapeLines quotes ('"' :: text) = '"' :: escapeLines (quotes + 1) text := by
          simp [escapeLines, htwo]
        rw [hread, List.cons_append]
        by_cases hempty : text = []
        · subst hempty
          exact .stop (multilineBasicStep_close_one hrest)
        by_cases hlast : quotes = 0 ∧ text = ['"']
        · obtain ⟨rfl, rfl⟩ := hlast
          exact .stop rfl
        refine .cons (by simp : ['"'] ≠ []) (multilineBasicStep_quote fun tail => ?_)
          (ih (by omega))
        obtain rfl | rfl : quotes = 0 ∨ quotes = 1 := by omega
        · exact escapeLines_one_ne hempty (fun h => hlast ⟨rfl, h⟩) _ _
        · exact escapeLines_two_ne hempty _ _
    · have hread : escapeLines quotes (c :: text) = escape c ++ escapeLines 0 text := by
        simp [escapeLines, hquote]
      rw [hread, List.append_assoc]
      exact .cons (escape_ne_nil c) (multilineBasicStep_escape hquote _) (ih (Nat.zero_le 2))

theorem le_longestRun (c : Char) (run : Nat) (text : List Char) : run ≤ longestRun c run text := by
  induction text generalizing run with
  | nil => exact Nat.le_refl run
  | cons d text ih =>
    rw [longestRun]
    split
    · exact Nat.le_trans (Nat.le_succ run) (ih (run + 1))
    · exact Nat.le_max_left _ _

theorem longestRun_cons_self (c : Char) (run : Nat) (text : List Char) :
    longestRun c run (c :: text) = longestRun c (run + 1) text := by
  rw [longestRun, if_pos rfl]

theorem not_mem_of_longestRun_eq_zero {c : Char} {text : List Char}
    (h : longestRun c 0 text = 0) : c ∉ text := by
  induction text with
  | nil => simp
  | cons d text ih =>
    rw [longestRun] at h
    split at h
    · have hpos := le_longestRun c (0 + 1) text
      omega
    · next hne =>
      have hmore := ih (by omega)
      simp [hmore, Ne.symm hne]

/-- Raw lines are read back when no run of single quotes closes them early. -/
theorem spells_lines {text rest : List Char} (hrest : EndsQuotes rest)
    (hcontrol : ∀ c ∈ text, isControl c = false) {run : Nat} (hrun : longestRun '\'' run text ≤ 2) :
    Spells multilineLiteralStep (text ++ '\'' :: '\'' :: '\'' :: rest) text rest := by
  induction text generalizing run with
  | nil => exact .stop (multilineLiteralStep_close hrest)
  | cons c text ih =>
    have hmore : ∀ d ∈ text, isControl d = false := fun d hd => hcontrol d (by simp [hd])
    rw [List.cons_append]
    by_cases hquote : c = '\''
    · subst hquote
      rw [longestRun_cons_self] at hrun
      by_cases hempty : text = []
      · subst hempty
        exact .stop (multilineLiteralStep_close_one hrest)
      by_cases hlast : text = ['\'']
      · subst hlast
        exact .stop rfl
      refine .cons (by simp : ['\''] ≠ []) (multilineLiteralStep_quote ?_) (ih hmore hrun)
      -- Two more quotes would be a run of three.
      intro tail htail
      obtain ⟨d, more, rfl⟩ := List.exists_cons_of_ne_nil hempty
      obtain ⟨rfl, hdrop⟩ := List.cons.inj htail
      cases more with
      | nil => exact hlast rfl
      | cons e more =>
        obtain ⟨rfl, -⟩ := List.cons.inj hdrop
        rw [longestRun_cons_self, longestRun_cons_self] at hrun
        have hthree := le_longestRun '\'' (run + 1 + 1 + 1) more
        omega
    · have hafter : longestRun '\'' 0 text ≤ 2 := by
        rw [longestRun, if_neg hquote] at hrun
        exact Nat.le_trans (Nat.le_max_right _ _) hrun
      have hstep : ∀ tail, multilineLiteralStep (c :: tail) = .units [c] tail := by
        intro tail
        rw [multilineLiteralStep]
        · exact lineStep_eq (hcontrol c (by simp)) tail
        all_goals simp [hquote]
      exact .cons (by simp : [c] ≠ []) (hstep _) (ih hmore hafter)

/-! ## The choice of a form -/

theorem Form.of_eq_literal {text : List Char} (h : Form.of text = literal) :
    ∀ c ∈ text, isControl c = false ∧ c ≠ '\n' ∧ c ≠ '\'' := by
  have hfits : text.any isControl = false ∧ longestRun '\'' 0 text = 0 ∧
      text.contains '\n' = false := by
    grind [Form.of]
  obtain ⟨hcontrol, hrun, hline⟩ := hfits
  have hquote := not_mem_of_longestRun_eq_zero hrun
  intro c hc
  refine ⟨?_, ?_, ?_⟩
  · simpa using List.any_eq_false.mp hcontrol c hc
  · rintro rfl
    simp_all
  · rintro rfl
    exact hquote hc

theorem Form.of_eq_multilineLiteral {text : List Char} (h : Form.of text = multilineLiteral) :
    (∀ c ∈ text, isControl c = false) ∧ longestRun '\'' 0 text ≤ 2 := by
  have hfits : text.any isControl = false ∧ longestRun '\'' 0 text ≤ 2 := by
    grind [Form.of]
  refine ⟨fun c hc => ?_, hfits.2⟩
  simpa using List.any_eq_false.mp hfits.1 c hc

/-- The opening line break is dropped where one was written, and no other. -/
theorem skipLineBreak_opened {text inside tail : List Char}
    (h : '\n' ∉ text → lineBreak? (inside ++ tail) = none) :
    skipLineBreak (opened text inside ++ tail) = inside ++ tail := by
  rw [opened]
  split
  · rfl
  · next hline => simp [skipLineBreak, h (by simpa using hline)]

theorem lineBreak?_cons {c : Char} (hline : c ≠ '\n') (hreturn : c ≠ '\r') (tail : List Char) :
    lineBreak? (c :: tail) = none := by
  simp [lineBreak?, hline, hreturn]

theorem lineBreak?_escapeLines {text : List Char} (h : '\n' ∉ text) (rest : List Char) :
    lineBreak? (escapeLines 0 text ++ '"' :: rest) = none := by
  cases text with
  | nil => rfl
  | cons c text =>
    have hline : c ≠ '\n' := fun hc => h (by simp [hc])
    by_cases hquote : c = '"'
    · subst hquote
      rfl
    · obtain ⟨hc, hcontrol, -⟩ | ⟨body, hc, -⟩ := escape_cases c
      · simpa [escapeLines, hquote, hc] using lineBreak?_cons hline (ne_carriageReturn hcontrol) _
      · simp [escapeLines, hquote, hc, lineBreak?]

theorem spelled_eq {step : List Char → Text.Step Char} {written text rest : List Char}
    (h : Spells step written text rest) :
    spelled step written = some (String.ofList text, rest) := by
  simp [spelled, h.spell]

/-- Only an empty string begins with two quotes, and then no third one follows. -/
theorem string?_eq_lineString? {quote : Char} {inside rest : List Char} (hrest : EndsQuotes rest)
    (hinside : inside.head? ≠ some quote) :
    string? (quote :: (inside ++ quote :: rest)) =
      lineString? (quote :: (inside ++ quote :: rest)) := by
  cases inside with
  | nil =>
    rw [string?]
    · rintro tail ⟨⟩
      exact hrest.1 rfl
    · rintro tail ⟨⟩
      exact hrest.2 rfl
  | cons c inside =>
    rw [string?]
    all_goals
      intro tail htail
      simp only [List.cons_append, List.cons.injEq] at htail
      exact hinside (by simp [htail.1, htail.2.1])

theorem head?_escapeInLine_ne (text : List Char) :
    (text.flatMap escapeInLine).head? ≠ some '"' := by
  cases text with
  | nil => simp
  | cons c text =>
    by_cases hline : c = '\n'
    · simp [hline, escapeInLine]
    by_cases hquote : c = '"'
    · simp [hquote, escapeInLine]
    rw [List.flatMap_cons, escapeInLine_of_ne hline hquote]
    obtain ⟨h, -⟩ | ⟨body, h, -⟩ := escape_cases c <;> simp [h, hquote]

/-- Keys and texts on one line share the basic form. -/
theorem lineString?_quoteBasic (text rest : List Char) :
    lineString? (quoteBasic text ++ rest) = some (String.ofList text, rest) := by
  have h := spelled_eq (spells_quoteBasic text rest)
  simpa [quoteBasic, lineString?] using h

theorem string?_write {text rest : List Char} (hrest : EndsQuotes rest) :
    string? ((Form.of text).write text ++ rest) = some (String.ofList text, rest) := by
  cases hform : Form.of text with
  | basic =>
    have hline := string?_eq_lineString? hrest (head?_escapeInLine_ne text)
    have hread := lineString?_quoteBasic text rest
    simp only [Form.write, quoteBasic, List.cons_append, List.append_assoc, List.nil_append]
      at hread ⊢
    rw [hline, hread]
  | literal =>
    have hfits := Form.of_eq_literal hform
    have hhead : text.head? ≠ some '\'' := by
      intro hc
      exact (hfits _ (List.mem_of_head? hc)).2.2 rfl
    have hread := spelled_eq (spells_literal hfits rest)
    simp only [Form.write, List.cons_append, List.append_assoc, List.nil_append]
    rw [string?_eq_lineString? hrest hhead, lineString?]
    exact hread
  | multilineBasic =>
    have hspells : Spells multilineBasicStep (escapeLines 0 text ++ '"' :: '"' :: '"' :: rest)
        text rest :=
      spells_escapeLines hrest (Nat.zero_le 2)
    have hread := spelled_eq hspells
    have hopen := skipLineBreak_opened fun hline : '\n' ∉ text =>
      lineBreak?_escapeLines hline ('"' :: '"' :: rest)
    simp only [Form.write, List.cons_append, List.append_assoc, List.nil_append, string?]
    rw [hopen, hread]
  | multilineLiteral =>
    obtain ⟨hcontrol, hrun⟩ := Form.of_eq_multilineLiteral hform
    have hread := spelled_eq (spells_lines hrest hcontrol hrun)
    have hopen : skipLineBreak (opened text text ++ '\'' :: '\'' :: '\'' :: rest) =
        text ++ '\'' :: '\'' :: '\'' :: rest := by
      refine skipLineBreak_opened fun hline => ?_
      cases text with
      | nil => rfl
      | cons c text =>
        exact lineBreak?_cons (fun hc => hline (by simp [hc]))
          (ne_carriageReturn (hcontrol c (by simp))) _
    simp only [Form.write, List.cons_append, List.append_assoc, List.nil_append, string?]
    rw [hopen, hread]

/-- A written text is read back up to its end. -/
theorem string?_quote (text : String) {rest : List Char} (hrest : EndsQuotes rest) :
    string? (quote text ++ rest) = some (text, rest) := by
  rw [quote, string?_write hrest, String.ofList_toList]

end AbiFacts.Toml
