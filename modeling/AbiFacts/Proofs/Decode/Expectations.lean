import AbiFacts.Decode.Expectations
import AbiFacts.Proofs.Decode.Records

/-! # Tables of expectations

What a table says as expectations, entry by entry and without regard to their order. A table with
distinct keys is decoded to some expectations exactly when it says just these
(`expectationsOfEntries_eq_ok`).
-/
namespace AbiFacts.Decode

/-- A document format in which texts, booleans and tables have one form each. -/
class TreeFormat (ν : Type) [Format ν] where
  ofText : String → ν
  ofBoolean : Bool → ν
  ofTable : List (String × ν) → ν
  text_eq_ok : ∀ {value : ν} {text : String}, Format.text value = .ok text ↔ value = ofText text
  boolean_eq_ok : ∀ {value : ν} {truth : Bool},
    Format.boolean value = .ok truth ↔ value = ofBoolean truth
  choice_ofText : ∀ {α : Type} [Documented α] (text : String),
    (Format.choice (ofText text) : Except Failure α) = named text
  entries_ofTable : ∀ (wanted : Wanted) (table : List (String × ν)),
    Format.entries wanted (ofTable table) = .ok (entriesOf table)
  ofTable_injective : ∀ {a b : List (String × ν)}, ofTable a = ofTable b → a = b
  keep_ofBoolean : ∀ (room : Nat) (truth : Bool), Format.keep room (ofBoolean truth) = .ok ()
  isNull_ofText : ∀ text : String, Format.isNull (ofText text) = false
  isNull_ofTable : ∀ table : List (String × ν), Format.isNull (ofTable table) = false
  /-- What passes for a table but is none has an entry that nothing expects. -/
  entries_eq_ok : ∀ {wanted : Wanted} {value : ν} {table : List (String × ν)},
    Format.entries wanted value = .ok (entriesOf table) → value = ofTable table ∨
      ∃ key ∈ keys table, key ≠ tailPaddingKey ∧ (Named.find? key : Option Property) = none

variable {ν : Type}

/-! ## Keys -/

def withoutTailPadding (table : List (String × ν)) : List (String × ν) :=
  table.filter fun entry => entry.1 != tailPaddingKey

theorem mem_withoutTailPadding {table : List (String × ν)} {entry : String × ν} :
    entry ∈ withoutTailPadding table ↔ entry ∈ table ∧ entry.1 ≠ tailPaddingKey := by
  simp [withoutTailPadding]

/-! ## Optional values -/

variable [Format ν]

/-- What a table says under a key that it may leave out: nothing, also by a value that stands for
an absent one, or what its value means. -/
inductive Holds {α : Type} (means : ν → α → Prop) (table : List (String × ν)) (key : String) :
    Option α → Prop where
  | missing (h : key ∉ keys table) : Holds means table key none
  | null {value : ν} (h : (key, value) ∈ table) (hnull : Format.isNull value = true) :
      Holds means table key none
  | value {value : ν} {a : α} (h : (key, value) ∈ table) (hnull : Format.isNull value = false)
      (hvalue : means value a) : Holds means table key (some a)

theorem optional_eq_ok {α : Type} {decode : ν → Except Failure α} {value : ν} {a : Option α} :
    optional decode value = .ok a ↔ Format.isNull value = true ∧ a = none ∨
      Format.isNull value = false ∧ ∃ b, decode value = .ok b ∧ a = some b := by
  cases hnull : Format.isNull value with
  | true => simp [optional, hnull, eq_comm]
  | false =>
    simp only [optional, hnull, Bool.false_eq_true, if_false, map_eq_ok, false_and, false_or,
      true_and]
    exact exists_congr fun b => and_congr_right fun _ => eq_comm

theorem Holds.of_optional {α : Type} {decode : ν → Except Failure α} {table : List (String × ν)}
    {key : String} {value : ν} {a : Option α} (hmem : (key, value) ∈ table)
    (h : optional decode value = .ok a) : Holds (decode · = .ok ·) table key a := by
  obtain ⟨hnull, rfl⟩ | ⟨hnull, b, hvalue, rfl⟩ := optional_eq_ok.mp h
  · exact .null hmem hnull
  · exact .value hmem hnull hvalue

theorem Holds.optional {α : Type} {decode : ν → Except Failure α} {table : List (String × ν)}
    {key : String} {a : Option α} (h : Holds (decode · = .ok ·) table key a) :
    key ∉ keys table ∧ a = none ∨
      ∃ value, (key, value) ∈ table ∧ Decode.optional decode value = .ok a := by
  cases h with
  | missing h => exact .inl ⟨h, rfl⟩
  | null h hnull => exact .inr ⟨_, h, optional_eq_ok.mpr (.inl ⟨hnull, rfl⟩)⟩
  | value h hnull hvalue =>
    exact .inr ⟨_, h, optional_eq_ok.mpr (.inr ⟨hnull, _, hvalue, rfl⟩)⟩

theorem Holds.imp {α : Type} {means other : ν → α → Prop} {table : List (String × ν)} {key : String}
    {a : Option α} (h : ∀ value a, (key, value) ∈ table → means value a → other value a) :
    Holds means table key a → Holds other table key a
  | .missing hno => .missing hno
  | .null hmem hnull => .null hmem hnull
  | .value hmem hnull hvalue => .value hmem hnull (h _ _ hmem hvalue)

/-- Under a key that occurs once, its value decides what the table says. -/
theorem Holds.decode {α : Type} {decode : ν → Except Failure α} {table : List (String × ν)}
    {key : String} (honce : (keys table).count key ≤ 1) {a : Option α}
    (h : Holds (decode · = .ok ·) table key a) {value : ν} (hmem : (key, value) ∈ table) :
    Decode.optional decode value = .ok a := by
  obtain ⟨hno, _⟩ | ⟨given, hgiven, hdecode⟩ := h.optional
  · exact absurd (mem_keys_of_mem hmem) hno
  · rwa [value_unique_of_count honce hmem hgiven]

theorem Holds.unique {α : Type} {decode : ν → Except Failure α} {table : List (String × ν)}
    {key : String} (honce : (keys table).count key ≤ 1) {a b : Option α}
    (ha : Holds (decode · = .ok ·) table key a) (hb : Holds (decode · = .ok ·) table key b) :
    a = b := by
  obtain ⟨hno, rfl⟩ | ⟨value, hvalue, hdecode⟩ := ha.optional
  · obtain ⟨_, rfl⟩ | ⟨value, hvalue, _⟩ := hb.optional
    · rfl
    · exact absurd (mem_keys_of_mem hvalue) hno
  · rw [hb.decode honce hvalue] at hdecode
    exact (Except.ok.inj hdecode).symm

/-- An optional field that has been filled holds what the table says. -/
theorem holds_join {α : Type} {decode : ν → Except Failure α} {table : List (String × ν)}
    {key : String} {met : Option (Option α)} (hnone : met = none → key ∉ keys table)
    (hsome : ∀ a, met = some a → ∃ value, (key, value) ∈ table ∧ optional decode value = .ok a) :
    Holds (decode · = .ok ·) table key met.join := by
  cases met with
  | none => exact .missing (hnone rfl)
  | some a =>
    obtain ⟨value, hvalue, hdecode⟩ := hsome a rfl
    exact .of_optional hvalue hdecode

/-! ## The first pass -/

/-- One step of the first pass: the tail padding is decoded, all else is kept for the second. -/
def passStep (room : Nat) (met : Option (Option TailPadding)) :
    Entry ν → Except Failure (Option (Option TailPadding))
  | .cut => .error .grammar
  | .bare key =>
    if key = tailPaddingKey ∧ met.isSome then .error (.data (.duplicateField key))
    else .error .grammar
  | .entry key value =>
    if key = tailPaddingKey then
      if met.isSome then .error (.data (.duplicateField key))
      else some <$> optional Format.choice value
    else (fun _ => met) <$> Format.keep room value

theorem passStep_name (room : Nat) (met : Option (Option TailPadding)) (field : Expectations.Field)
    (value : ν) : passStep room met (.entry (Named.name field) value) =
      if met.isSome then .error (.data (.duplicateField (Named.name field)))
      else some <$> optional Format.choice value := by
  rw [passStep]
  exact if_pos rfl

theorem passStep_of_met {room : Nat} {met : Option (Option TailPadding)} (hmet : met ≠ none)
    (field : Expectations.Field) (value : ν) :
    passStep room met (.entry (Named.name field) value) =
      .error (.data (.duplicateField (Named.name field))) := by
  rw [passStep_name, if_pos (Option.isSome_iff_ne_none.mpr hmet)]

def passRecord (room : Nat) :
    Record (ν := ν) (Option (Option TailPadding)) Expectations.Field (passStep room) where
  Part _ := Option TailPadding
  decode _ := optional Format.choice
  met met _ := met
  put _ _ rule := some rule
  pass _ := Format.keep room
  met_put_self _ _ _ := rfl
  met_put_of_ne := by
    rintro _ ⟨⟩ _ ⟨⟩ h
    exact absurd rfl h
  step_open := by
    rintro _ field value rfl
    exact passStep_name room none field value
  step_met := by
    intro met field value hmet t
    rw [passStep_of_met hmet]
    rintro ⟨⟩
  step_other := by
    intro met key value hfind
    exact if_neg (Named.find?_eq_none_iff.mp hfind .tailPadding)
  step_bare := by
    intro met key t
    rw [passStep]
    split <;> rintro ⟨⟩
  step_cut := by
    rintro _ _ ⟨⟩

def kept? : Entry ν → Option (String × ν)
  | .entry key value => if key = tailPaddingKey then none else some (key, value)
  | .bare _ | .cut => none

omit [Format ν] in
theorem filterMap_kept? (table : List (String × ν)) :
    (entriesOf table).filterMap kept? = withoutTailPadding table := by
  induction table with
  | nil => rfl
  | cons entry table ih =>
    by_cases hkey : entry.1 = tailPaddingKey <;> simp_all [kept?, withoutTailPadding]

/-- The first pass ends with what has been met under the field, and all other entries. -/
theorem separate_eq (room : Nat) (met : Option (Option TailPadding)) (entries : List (Entry ν)) :
    separate room met entries =
      (fun met => (met.join, entries.filterMap kept?)) <$> entries.foldlM (passStep room) met := by
  induction entries generalizing met with
  | nil => rfl
  | cons entry entries ih =>
    rw [List.foldlM_cons]
    cases entry with
    | cut => rfl
    | bare key =>
      rw [separate, Expectations.Field.documentName_tailPadding, passStep]
      split <;> rfl
    | entry key value =>
      rw [separate, Expectations.Field.documentName_tailPadding, passStep]
      by_cases hkey : key = tailPaddingKey
      · have hkept : kept? (.entry key value) = none := if_pos hkey
        rw [if_pos hkey, if_pos hkey, List.filterMap_cons_none hkept]
        cases met with
        | some rule => rfl
        | none =>
          cases (optional Format.choice value : Except Failure (Option TailPadding)) with
          | error failure => rfl
          | ok rule => exact ih (some rule)
      · have hkept : kept? (.entry key value) = some (key, value) := if_neg hkey
        rw [if_neg hkey, if_neg hkey, List.filterMap_cons_some hkept]
        cases Format.keep room value with
        | error failure => rfl
        | ok =>
          change (separate room met entries >>= fun rest =>
            .ok (rest.1, (key, value) :: rest.2)) = _ <$> entries.foldlM (passStep room) met
          rw [ih]
          cases entries.foldlM (passStep room) met <;> rfl

/-- After the first pass the tail padding is what the table says under its key. -/
theorem holds_of_passed {room : Nat} {table : List (String × ν)} {met : Option (Option TailPadding)}
    (h : (passRecord room).Fills none table met) :
    Holds (Format.choice · = .ok ·) table tailPaddingKey met.join := by
  refine holds_join (fun hmet => h.met_eq_none .tailPadding hmet) fun _ hmet => ?_
  exact (h.met_eq_some .tailPadding rfl).mp hmet

/-- The first pass takes the tail padding, from one entry at most, and keeps the others. -/
theorem separate_eq_ok {room : Nat} {rule : Option TailPadding} {table others : List (String × ν)} :
    separate room none (entriesOf table) = .ok (rule, others) ↔
      (keys table).count tailPaddingKey ≤ 1 ∧
        Holds (Format.choice · = .ok ·) table tailPaddingKey rule ∧
          others = withoutTailPadding table ∧
        ∀ entry ∈ withoutTailPadding table, Format.keep room entry.2 = .ok () := by
  rw [separate_eq, filterMap_kept?, map_eq_ok]
  simp only [Prod.mk.injEq]
  constructor
  · rintro ⟨met, hfold, rfl, rfl⟩
    have hfills := (passRecord room).fills_of_foldlM hfold
    refine ⟨hfills.once .tailPadding, holds_of_passed hfills, rfl, fun entry hentry => ?_⟩
    obtain ⟨hmem, hkey⟩ := mem_withoutTailPadding.mp hentry
    exact hfills.passes hmem (Named.find?_eq_none_iff.mpr fun _ => hkey)
  · rintro ⟨honce, hrule, rfl, hkeep⟩
    have hfits : (passRecord room).Fits none table := by
      refine ⟨fun _ => honce, fun _ _ => rfl, fun _ value hmem => ⟨rule, ?_⟩,
        fun key value hmem hfind => ?_⟩
      · exact hrule.decode honce hmem
      · have hkey := Named.find?_eq_none_iff.mp hfind .tailPadding
        exact hkeep _ (mem_withoutTailPadding.mpr ⟨hmem, hkey⟩)
    obtain ⟨met, hfills⟩ := hfits.fills
    exact ⟨met, hfills.foldlM, (holds_of_passed hfills).unique honce hrule, rfl⟩

theorem entriesOf_of_separate {room : Nat} {tail : Option (Option TailPadding)}
    {entries : List (Entry ν)} {result : Option TailPadding × List (String × ν)}
    (h : separate room tail entries = .ok result) : ∃ table, entries = entriesOf table := by
  rw [separate_eq, map_eq_ok] at h
  obtain ⟨met, hfold, _⟩ := h
  exact (passRecord room).entriesOf_of_foldlM hfold

/-! ## The second pass -/

def addPin (expectations : Expectations) (pin : Property × Bool) : Expectations :=
  expectations.setPin pin.1 (some pin.2)

@[simp] theorem foldl_addPin_tailPadding (pins : List (Property × Bool)) (e : Expectations) :
    (pins.foldl addPin e).tailPadding = e.tailPadding := by
  induction pins generalizing e with
  | nil => rfl
  | cons pin pins ih => exact ih (addPin e pin)

/-- Where no fact is pinned twice, what a fact is pinned to does not depend on the order. -/
theorem foldl_addPin_pinned {pins : List (Property × Bool)} (h : (pins.map Prod.fst).Nodup)
    (e : Expectations) (property : Property) (truth : Bool) :
    (pins.foldl addPin e).pinned property = some truth ↔ (property, truth) ∈ pins ∨
      property ∉ pins.map Prod.fst ∧ e.pinned property = some truth := by
  induction pins generalizing e with
  | nil => simp
  | cons pin pins ih =>
    obtain ⟨other, first⟩ := pin
    rw [List.map_cons, List.nodup_cons] at h
    rw [List.foldl_cons, ih h.2]
    by_cases hother : property = other
    · subst hother
      have hno : (property, truth) ∉ pins := fun hmem => h.1 (List.mem_map.mpr ⟨_, hmem, rfl⟩)
      have hself : (addPin e (property, first)).pinned property = some first :=
        Expectations.setPin_self property (some first) e
      simp only [hno, h.1, hself, List.map_cons, List.mem_cons, Prod.mk.injEq, not_true_eq_false,
        not_false_eq_true, true_and, false_or, or_false, false_and, Option.some.injEq]
      exact eq_comm
    · have hsame : (addPin e (other, first)).pinned property = e.pinned property :=
        Expectations.setPin_of_ne hother (some first) e
      simp [hother, hsame]

variable [TreeFormat ν]

open TreeFormat

def pinEntry (pin : Property × Bool) : String × ν := (pin.1.key, ofBoolean pin.2)

/-- The second pass accepts pins alone and puts them one after another. -/
theorem foldlM_pin_eq_ok {table : List (String × ν)} {e result : Expectations} :
    table.foldlM pin e = .ok result ↔
      ∃ pins : List (Property × Bool), table = pins.map pinEntry ∧
        result = pins.foldl addPin e := by
  induction table generalizing e with
  | nil =>
    constructor
    · intro h
      exact ⟨[], rfl, (pure_eq_ok.mp h).symm⟩
    · rintro ⟨pins, htable, rfl⟩
      obtain rfl := List.map_eq_nil_iff.mp htable.symm
      rfl
  | cons entry table ih =>
    obtain ⟨key, value⟩ := entry
    have hnamed : ∀ property : Property, named key = .ok property ↔ key = property.key :=
      fun _ => named_eq_ok
    simp only [List.foldlM_cons, bind_eq_ok, pin, ih, hnamed, boolean_eq_ok, pure_eq_ok]
    constructor
    · rintro ⟨_, ⟨property, rfl, truth, rfl, rfl⟩, pins, rfl, rfl⟩
      exact ⟨(property, truth) :: pins, rfl, rfl⟩
    · rintro ⟨pins, htable, rfl⟩
      cases pins with
      | nil => cases htable
      | cons pin pins =>
        rw [List.map_cons, List.cons.injEq, Prod.mk.injEq] at htable
        obtain ⟨⟨rfl, rfl⟩, rfl⟩ := htable
        exact ⟨_, ⟨pin.1, rfl, pin.2, rfl, rfl⟩, pins, rfl, rfl⟩

theorem key_ne_tailPaddingKey (property : Property) : property.key ≠ tailPaddingKey := by
  cases property <;> decide

theorem ofBoolean_injective {a b : Bool} (h : (ofBoolean a : ν) = ofBoolean b) : a = b := by
  have ha : Format.boolean (ofBoolean a : ν) = .ok a := boolean_eq_ok.mpr rfl
  rw [h, boolean_eq_ok.mpr rfl] at ha
  exact (Except.ok.inj ha).symm

theorem mem_pinEntry {pins : List (Property × Bool)} {property : Property} {value : ν} :
    (property.key, value) ∈ pins.map pinEntry ↔
      ∃ truth, value = ofBoolean truth ∧ (property, truth) ∈ pins := by
  simp only [List.mem_map, pinEntry, Prod.mk.injEq]
  constructor
  · rintro ⟨⟨other, truth⟩, hmem, hkey, rfl⟩
    obtain rfl : other = property := Named.name_injective _ _ hkey
    exact ⟨truth, rfl, hmem⟩
  · rintro ⟨truth, rfl, hmem⟩
    exact ⟨_, hmem, rfl, rfl⟩

theorem exists_pins {table : List (String × ν)}
    (h : ∀ entry ∈ table, ∃ pin : Property × Bool, entry = pinEntry pin) :
    ∃ pins : List (Property × Bool), table = pins.map pinEntry := by
  induction table with
  | nil => exact ⟨[], rfl⟩
  | cons entry table ih =>
    obtain ⟨pin, rfl⟩ := h entry (.head _)
    obtain ⟨pins, rfl⟩ := ih fun other hother => h other (.tail _ hother)
    exact ⟨pin :: pins, rfl⟩

theorem nodup_pins {pins : List (Property × Bool)}
    (h : (keys (pins.map (pinEntry : _ → String × ν))).Nodup) : (pins.map Prod.fst).Nodup := by
  have hkeys : keys (pins.map (pinEntry : _ → String × ν)) =
      (pins.map Prod.fst).map Property.key := by
    simp [keys, pinEntry]
  rw [hkeys] at h
  exact (List.pairwise_map.mp h).imp fun hne heq => hne (congrArg _ heq)

/-- Pins that come from distinct keys are read off the table in which they stand. -/
theorem foldl_addPin_of_table {table : List (String × ν)} {pins : List (Property × Bool)}
    (hkeys : (keys table).Nodup) (hpins : withoutTailPadding table = pins.map pinEntry)
    (rule : Option TailPadding) (property : Property) (truth : Bool) :
    (pins.foldl addPin { tailPadding := rule }).pinned property = some truth ↔
      (property.key, ofBoolean truth) ∈ table := by
  have hrest : (keys (withoutTailPadding table)).Nodup :=
    hkeys.sublist (List.filter_sublist.map Prod.fst)
  have hmem : (property.key, ofBoolean truth) ∈ withoutTailPadding table ↔
      (property.key, ofBoolean truth) ∈ table :=
    mem_withoutTailPadding.trans (and_iff_left (key_ne_tailPaddingKey property))
  rw [foldl_addPin_pinned (nodup_pins (hpins ▸ hrest)), ← hmem, hpins, mem_pinEntry]
  constructor
  · rintro (hpin | ⟨_, hnone⟩)
    · exact ⟨truth, rfl, hpin⟩
    · cases hnone
  · rintro ⟨other, hother, hpin⟩
    obtain rfl := ofBoolean_injective hother
    exact .inl hpin

/-! ## Both passes -/

/-- Both passes, read off their result. -/
theorem expectationsOfEntries_passes {room : Nat} {table : List (String × ν)} {e : Expectations} :
    expectationsOfEntries room (entriesOf table) = .ok e ↔
      ∃ (rule : Option TailPadding) (pins : List (Property × Bool)),
        (keys table).count tailPaddingKey ≤ 1 ∧
        Holds (Format.choice · = .ok ·) table tailPaddingKey rule ∧
        withoutTailPadding table = pins.map pinEntry ∧
        e = pins.foldl addPin { tailPadding := rule } := by
  simp only [expectationsOfEntries, bind_eq_ok, Prod.exists, separate_eq_ok, foldlM_pin_eq_ok]
  constructor
  · rintro ⟨rule, _, ⟨honce, hrule, rfl, _⟩, pins, hpins, rfl⟩
    exact ⟨rule, pins, honce, hrule, hpins, rfl⟩
  · rintro ⟨rule, pins, honce, hrule, hpins, rfl⟩
    refine ⟨rule, _, ⟨honce, hrule, rfl, fun entry hentry => ?_⟩, pins, hpins, rfl⟩
    rw [hpins] at hentry
    obtain ⟨pin, _, rfl⟩ := List.mem_map.mp hentry
    exact keep_ofBoolean room pin.2

theorem known_of_passes {table : List (String × ν)} {pins : List (Property × Bool)}
    (hpins : withoutTailPadding table = pins.map pinEntry) {key : String}
    (hkey : key ∈ keys table) :
    key = tailPaddingKey ∨ ∃ property : Property, key = property.key := by
  obtain ⟨value, hvalue⟩ := mem_keys.mp hkey
  by_cases htail : key = tailPaddingKey
  · exact .inl htail
  · have hentry := mem_withoutTailPadding.mpr ⟨hvalue, htail⟩
    rw [hpins] at hentry
    obtain ⟨pin, _, hpin⟩ := List.mem_map.mp hentry
    exact .inr ⟨pin.1, (congrArg Prod.fst hpin).symm⟩

theorem isBoolean_of_passes {table : List (String × ν)} {pins : List (Property × Bool)}
    (hpins : withoutTailPadding table = pins.map pinEntry) {property : Property} {value : ν}
    (hvalue : (property.key, value) ∈ table) : ∃ truth, value = ofBoolean truth := by
  have hentry := mem_withoutTailPadding.mpr ⟨hvalue, key_ne_tailPaddingKey property⟩
  rw [hpins, mem_pinEntry] at hentry
  rcases hentry with ⟨truth, htruth, _⟩
  exact ⟨truth, htruth⟩

/-- Where all keys are known and those of facts have booleans, the second pass meets pins alone. -/
theorem exists_passes {table : List (String × ν)}
    (hknown : ∀ key ∈ keys table, key = tailPaddingKey ∨ ∃ property : Property, key = property.key)
    (hboolean : ∀ (property : Property) value, (property.key, value) ∈ table →
      ∃ truth, value = ofBoolean truth) :
    ∃ pins : List (Property × Bool), withoutTailPadding table = pins.map pinEntry := by
  apply exists_pins
  rintro ⟨key, value⟩ hentry
  rcases mem_withoutTailPadding.mp hentry with ⟨hentry, htail⟩
  rcases (hknown key (mem_keys_of_mem hentry)).resolve_left htail with ⟨property, rfl⟩
  rcases hboolean property value hentry with ⟨truth, rfl⟩
  exact ⟨(property, truth), rfl⟩

theorem expectations_ofTable (room : Nat) (table : List (String × ν)) :
    expectations room (ofTable table) = expectationsOfEntries (room - 1) (entriesOf table) := by
  rw [expectations, entries_ofTable]
  rfl

/-- Expectations stand in a table only. -/
theorem expectations_eq_ok {room : Nat} {value : ν} {e : Expectations} :
    expectations room value = .ok e ↔ ∃ table, value = ofTable table ∧
      expectationsOfEntries (room - 1) (entriesOf table) = .ok e := by
  rw [expectations, bind_eq_ok]
  constructor
  · rintro ⟨entries, hentries, hdecode⟩
    have hseparate := hdecode
    rw [expectationsOfEntries, bind_eq_ok] at hseparate
    obtain ⟨_, hseparate, _⟩ := hseparate
    obtain ⟨table, rfl⟩ := entriesOf_of_separate hseparate
    obtain ⟨_, _, _, _, hpins, _⟩ := expectationsOfEntries_passes.mp hdecode
    obtain rfl | ⟨key, hkey, htail, hfind⟩ := entries_eq_ok hentries
    · exact ⟨table, rfl, hdecode⟩
    · obtain ⟨property, hproperty⟩ := (known_of_passes hpins hkey).resolve_left htail
      exact absurd hproperty (Named.find?_eq_none_iff.mp hfind property)
  · rintro ⟨table, rfl, hdecode⟩
    exact ⟨_, entries_ofTable _ table, hdecode⟩

/-- What a table must say for these expectations: what is not absent is pinned, and nothing else. -/
structure DenotesExpectations (table : List (String × ν)) (e : Expectations) : Prop where
  known : ∀ key ∈ keys table, key = tailPaddingKey ∨ ∃ property : Property, key = property.key
  isBoolean : ∀ (property : Property) value, (property.key, value) ∈ table →
    ∃ truth, value = ofBoolean truth
  pinned : ∀ property truth,
    e.pinned property = some truth ↔ (property.key, ofBoolean truth) ∈ table
  tailPadding : Holds (Format.choice · = .ok ·) table tailPaddingKey e.tailPadding

theorem expectationsOfEntries_eq_ok {room : Nat} {table : List (String × ν)}
    (hkeys : (keys table).Nodup) {e : Expectations} :
    expectationsOfEntries room (entriesOf table) = .ok e ↔ DenotesExpectations table e := by
  rw [expectationsOfEntries_passes]
  constructor
  · rintro ⟨rule, pins, _, hrule, hpins, rfl⟩
    refine ⟨fun key hkey => known_of_passes hpins hkey, fun _ _ => isBoolean_of_passes hpins,
      foldl_addPin_of_table hkeys hpins rule, ?_⟩
    rw [foldl_addPin_tailPadding]
    exact hrule
  · intro h
    obtain ⟨pins, hpins⟩ := exists_passes h.known h.isBoolean
    have honce := List.nodup_iff_count.mp hkeys tailPaddingKey
    refine ⟨e.tailPadding, pins, honce, h.tailPadding, hpins, ?_⟩
    refine Expectations.ext (fun property => Option.ext fun truth => ?_) ?_
    · rw [h.pinned, foldl_addPin_of_table hkeys hpins]
    · rw [foldl_addPin_tailPadding]

end AbiFacts.Decode
