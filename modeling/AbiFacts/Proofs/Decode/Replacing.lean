import AbiFacts.Proofs.Decode.LooseSnapshots
import AbiFacts.Proofs.Decode.Refusals
import AbiFacts.Proofs.Decode.Written

/-! # One value in the place of another

A record with another value under one of its fields is filled as before but for that field, if the
new value is decoded, and is refused for the new value if it is not. So a table in which one text
stands for a name is decoded for the names alone, each of which puts its own value into what the
rest of the table gives (`ReadsValue.readsName`).
-/
namespace AbiFacts

namespace Decode

/-! ## Tables -/

section
variable {ν : Type} {front back : List (String × ν)} {key : String} {v w : ν}

theorem keys_replace : keys (front ++ (key, w) :: back) = keys (front ++ (key, v) :: back) := by
  simp

theorem mem_replace {other : String} (h : other ≠ key) {value : ν} :
    (other, value) ∈ front ++ (key, w) :: back ↔ (other, value) ∈ front ++ (key, v) :: back := by
  simp [h]

theorem mem_middle : (key, v) ∈ front ++ (key, v) :: back :=
  List.mem_append_right _ (.head _)

/-- Under a key that occurs once stands the value that was put there. -/
theorem eq_of_mem_once (honce : (keys (front ++ (key, v) :: back)).count key ≤ 1) {value : ν}
    (h : (key, value) ∈ front ++ (key, v) :: back) : value = v :=
  value_unique_of_count honce h mem_middle

theorem not_mem_front (honce : (keys (front ++ (key, v) :: back)).count key ≤ 1) :
    key ∉ keys front := by
  rw [keys_append, List.count_append, keys_cons, List.count_cons_self] at honce
  exact List.count_eq_zero.mp (by omega)

theorem withoutTailPadding_replace :
    withoutTailPadding (front ++ (tailPaddingKey, v) :: back) =
      withoutTailPadding (front ++ back) := by
  simp [withoutTailPadding]

end

/-! ## Records -/

namespace Record

variable {ν σ φ : Type} [Named φ] {step : σ → Entry ν → Except Failure σ}
  {record : Record σ φ step} {front back : List (String × ν)} {field : φ} {v w : ν} {s t : σ}

theorem Fits.of_append (h : record.Fits s (front ++ back)) : record.Fits s front := by
  have hleft : ∀ {entry}, entry ∈ front → entry ∈ front ++ back := List.mem_append_left _
  refine ⟨fun field => ?_, fun field hmem => h.isOpen field ?_,
    fun field value hmem => h.decodes field value (hleft hmem),
    fun key value hmem => h.passes key value (hleft hmem)⟩
  · have honce := h.once field
    rw [keys_append, List.count_append] at honce
    omega
  · rw [keys_append]
    exact List.mem_append_left _ hmem

/-- A value that is decoded may be put in the place of another. -/
theorem Fits.replace (h : record.Fits s (front ++ (Named.name field, v) :: back))
    {part : record.Part field} (hpart : record.decode field w = .ok part) :
    record.Fits s (front ++ (Named.name field, w) :: back) := by
  have honce : ∀ other : φ,
      (keys (front ++ (Named.name field, w) :: back)).count (Named.name other) ≤ 1 := by
    intro other
    rw [keys_replace]
    exact h.once other
  refine ⟨honce, fun other hmem => ?_, fun other value hmem => ?_, fun key value hmem hfind => ?_⟩
  · rw [keys_replace] at hmem
    exact h.isOpen other hmem
  · by_cases hother : other = field
    · subst hother
      exact ⟨part, eq_of_mem_once (honce other) hmem ▸ hpart⟩
    · have hne : Named.name other ≠ Named.name field := fun hname => hother (name_eq_name.mp hname)
      exact h.decodes other value ((mem_replace hne).mp hmem)
  · have hne := Named.find?_eq_none_iff.mp hfind field
    exact h.passes key value ((mem_replace hne).mp hmem) hfind

/-- An entry that is no field and is passed over may be put anywhere. -/
theorem Fits.insert {key : String} {value : ν} (h : record.Fits s (front ++ back))
    (hfind : (Named.find? key : Option φ) = none) (hpass : record.pass key value = .ok ()) :
    record.Fits s (front ++ (key, value) :: back) := by
  have hne := Named.find?_eq_none_iff.mp hfind
  have hmem : ∀ other given, (other, given) ∈ front ++ (key, value) :: back →
      (other = key ∧ given = value) ∨ (other, given) ∈ front ++ back := by
    intro other given hentry
    simpa [or_left_comm] using hentry
  refine ⟨fun field => ?_, fun field hfield => h.isOpen field ?_, fun field given hentry => ?_,
    fun other given hentry hother => ?_⟩
  · simpa [List.count_append, List.count_cons, hne field] using h.once field
  · simpa [(hne field).symm] using hfield
  · rcases hmem _ given hentry with ⟨hkey, _⟩ | hentry
    · exact absurd hkey.symm (hne field)
    · exact h.decodes field given hentry
  · rcases hmem other given hentry with ⟨rfl, rfl⟩ | hentry
    · exact hpass
    · exact h.passes other given hentry hother

/-- A value that is not decoded is the first fault where another one fitted. -/
theorem Fits.firstFault (h : record.Fits s (front ++ (Named.name field, v) :: back))
    {failure : Failure} (hfailure : record.decode field w = .error failure) :
    record.FirstFault s (front ++ (Named.name field, w) :: back) failure :=
  .intro rfl h.of_append (.value (not_mem_front (h.once field)) hfailure)

theorem Fills.fits (h : record.Fills s front t) : record.Fits s front :=
  record.exists_foldlM.mp ⟨t, h.foldlM⟩

/-- With another value only its own field is filled otherwise. -/
theorem Fills.replace (h : record.Fills s (front ++ (Named.name field, v) :: back) t)
    (hopen : ∀ other, record.met s other = none) {part : record.Part field}
    (hpart : record.decode field w = .ok part) :
    ∃ u, record.Fills s (front ++ (Named.name field, w) :: back) u ∧
      record.met u field = some part ∧
      ∀ other, other ≠ field → record.met u other = record.met t other := by
  rcases (h.fits.replace hpart).fills with ⟨u, hu⟩
  refine ⟨u, hu, (hu.met_eq_some field (hopen field)).mpr ⟨w, mem_middle, hpart⟩, ?_⟩
  intro other hother
  have hne : Named.name other ≠ Named.name field := fun hname => hother (name_eq_name.mp hname)
  ext found
  simp only [hu.met_eq_some other (hopen other), h.met_eq_some other (hopen other),
    mem_replace (v := v) hne]

end Record

/-! ## Names -/

section
variable {α β γ π ν : Type}

/-- A text in the place of a name, where all else gives `rest`: exactly the names are taken, each
for its value, and any other text is an unknown variant unless it has another use in that place. -/
structure ReadsName [Named α] (text : String) (rest : Except Failure β) (put : α → β → γ)
    (result : Except Failure γ) (reserved : List String := []) : Prop where
  accepts : ∀ c, result = .ok c ↔ ∃ a b, text = Named.name a ∧ rest = .ok b ∧ c = put a b
  refuses : text ∉ reserved → (∀ a : α, text ≠ Named.name a) → ∀ b, rest = .ok b →
    result = .error (.data (.unknownVariant text (Named.names α)))

theorem readsName_named [Documented α] (text : String) (b : β) :
    ReadsName text (.ok b) (fun (a : α) _ => a) (named text) := by
  constructor
  · intro a
    rw [named_eq_ok]
    constructor
    · exact fun h => ⟨a, b, h, rfl, rfl⟩
    · rintro ⟨_, _, h, _, rfl⟩
      exact h
  · intro _ hno _ _
    exact named_eq_error.mpr ⟨Named.find?_eq_none_iff.mpr hno, rfl⟩

theorem ReadsName.map {β' γ' : Type} [Named α] {text : String} {rest : Except Failure β}
    {put : α → β → γ} {result : Except Failure γ} {reserved : List String}
    (h : ReadsName text rest put result reserved) (f : β → β') (g : γ → γ') {also : α → β' → γ'}
    (hput : ∀ a b, also a (f b) = g (put a b)) :
    ReadsName text (f <$> rest) also (g <$> result) reserved := by
  constructor
  · intro d
    simp only [map_eq_ok, h.accepts]
    constructor
    · rintro ⟨_, ⟨a, b, htext, hb, rfl⟩, rfl⟩
      exact ⟨a, f b, htext, ⟨b, hb, rfl⟩, (hput a b).symm⟩
    · rintro ⟨a, _, htext, ⟨b, hb, rfl⟩, rfl⟩
      exact ⟨_, ⟨a, b, htext, hb, rfl⟩, (hput a b).symm⟩
  · intro hreserved hno _ hrest
    rcases map_eq_ok.mp hrest with ⟨b, hb, rfl⟩
    exact map_eq_error.mpr (h.refuses hreserved hno b hb)

/-- Tables are read into values of which one part is what the value under this key is decoded to. -/
structure ReadsValue (read : List (String × ν) → Except Failure β) (key : String)
    (decode : ν → Except Failure π) (part : β → π) (put : π → β → β) : Prop where
  part_put : ∀ a b, part (put a b) = a
  put_part : ∀ b, put (part b) b = b
  put_put : ∀ a c b, put a (put c b) = put a b
  decoded : ∀ {front back v b}, read (front ++ (key, v) :: back) = .ok b → decode v = .ok (part b)
  replaced : ∀ {front back v w b a}, read (front ++ (key, v) :: back) = .ok b →
    decode w = .ok a → read (front ++ (key, w) :: back) = .ok (put a b)
  refused : ∀ {front back v w b failure}, read (front ++ (key, v) :: back) = .ok b →
    decode w = .error failure → read (front ++ (key, w) :: back) = .error failure

/-- If a value is read by a name in it, then so is the table in which it stands. -/
theorem ReadsValue.readsName [Named α] {read : List (String × ν) → Except Failure β} {key : String}
    {decode : ν → Except Failure π} {part : β → π} {put : π → β → β}
    (h : ReadsValue read key decode part put) {text : String} {v w : ν} {inner : α → π → π}
    {reserved : List String} (hname : ReadsName text (decode v) inner (decode w) reserved)
    (front back : List (String × ν)) :
    ReadsName text (read (front ++ (key, v) :: back))
      (fun a b => put (inner a (part b)) b) (read (front ++ (key, w) :: back)) reserved := by
  constructor
  · intro c
    constructor
    · intro hc
      rcases (hname.accepts _).mp (h.decoded hc) with ⟨a, x, htext, hx, hpart⟩
      refine ⟨a, put x c, htext, h.replaced hc hx, ?_⟩
      rw [h.part_put, ← hpart, h.put_put, h.put_part]
    · rintro ⟨a, b, htext, hb, rfl⟩
      exact h.replaced hb ((hname.accepts _).mpr ⟨a, part b, htext, h.decoded hb, rfl⟩)
  · intro hreserved hno b hb
    exact h.refused hb (hname.refuses hreserved hno (part b) (h.decoded hb))

end

/-! ## Places of names -/

section
variable {ν : Type} [Format ν] [TreeFormat ν]

open TreeFormat

/-- Any name may be the one that stands in the place before. -/
theorem readsName_choice {α : Type} [Documented α] (text : String) (known : α) :
    ReadsName text (Format.choice (ofText (Named.name known) : ν)) (fun (a : α) (_ : α) => a)
      (Format.choice (ofText text : ν)) := by
  rw [choice_name, choice_ofText]
  exact readsName_named text known

theorem optional_ofText {α : Type} [Documented α] (text : String) :
    optional Format.choice (ofText text : ν) =
      (some <$> named text : Except Failure (Option α)) := by
  rw [optional, isNull_ofText, choice_ofText]
  rfl

theorem readsName_optional {α : Type} [Documented α] (text : String) (known : α) :
    ReadsName text (optional Format.choice (ofText (Named.name known) : ν))
      (fun (a : α) (_ : Option α) => some a) (optional Format.choice (ofText text : ν)) := by
  have hknown : (named (Named.name known) : Except Failure α) = .ok known := named_eq_ok.mpr rfl
  rw [optional_ofText, optional_ofText, hknown]
  exact (readsName_named text known).map some some fun _ _ => rfl

omit [Format ν] [TreeFormat ν] in
/-- A record reads the value under each of its fields. -/
theorem Record.readsValue {β σ φ : Type} [Named φ] {step : σ → Entry ν → Except Failure σ}
    (record : Record σ φ step) (hrepeated : record.NamesRepeated) {start : σ}
    (hopen : ∀ field, record.met start field = none) {finish : σ → Except Failure β} (field : φ)
    {part : β → record.Part field} {put : record.Part field → β → β}
    (part_put : ∀ a b, part (put a b) = a) (put_part : ∀ b, put (part b) b = b)
    (put_put : ∀ a c b, put a (put c b) = put a b)
    (hpart : ∀ s a b, finish s = .ok b → record.met s field = some a → part b = a)
    (hfinish : ∀ s t a b, finish s = .ok b → record.met t field = some a →
      (∀ other, other ≠ field → record.met t other = record.met s other) →
        finish t = .ok (put a b)) :
    ReadsValue (fun table => (entriesOf table).foldlM step start >>= finish) (Named.name field)
      (record.decode field) part put where
  part_put := part_put
  put_part := put_part
  put_put := put_put
  decoded := by
    intro front back v b h
    rcases bind_eq_ok.mp h with ⟨s, hfold, hs⟩
    rcases (record.fills_of_foldlM hfold).part mem_middle with ⟨a, ha, hmet⟩
    rw [ha, hpart s a b hs hmet]
  replaced := by
    intro front back v w b a h ha
    rcases bind_eq_ok.mp h with ⟨s, hfold, hs⟩
    rcases (record.fills_of_foldlM hfold).replace hopen ha with ⟨t, ht, hmet, hsame⟩
    exact bind_eq_ok.mpr ⟨t, ht.foldlM, hfinish s t a b hs hmet hsame⟩
  refused := by
    intro front back v w b failure h hfailure
    rcases bind_eq_ok.mp h with ⟨s, hfold, _⟩
    have hfits := (record.fills_of_foldlM hfold).fits
    exact bind_eq_error.mpr (.inl ((record.foldlM_eq_error hrepeated hopen).mpr
      (hfits.firstFault hfailure)))

omit [TreeFormat ν] in
theorem ProfileFields.isOpen (room : Nat) (field : Profile.Field) :
    (record (ν := ν) room).met {} field = none := by
  cases field <;> rfl

omit [TreeFormat ν] in
theorem profile_readsAbi (room : Nat) :
    ReadsValue (fun table : List (String × ν) => profileOfEntries room (entriesOf table)) "abi"
      Format.choice Profile.abi (fun kind profile => { profile with abi := kind }) := by
  refine (ProfileFields.record room).readsValue (ProfileFields.namesRepeated room)
    (ProfileFields.isOpen room) .abi (fun _ _ => rfl) (fun _ => rfl) (fun _ _ _ => rfl) ?_ ?_
  · intro s kind profile hs hkind
    have habi := (ProfileFields.finish_eq_ok.mp hs).2.1
    exact Option.some.inj (habi.symm.trans hkind)
  · intro s t kind profile hs hkind hsame
    rcases ProfileFields.finish_eq_ok.mp hs with ⟨hname, _, hdescription, hexpect⟩
    refine ProfileFields.finish_eq_ok.mpr ⟨?_, hkind, ?_, ?_⟩
    · exact (hsame .name nofun).trans hname
    · exact (congrArg Option.join (hsame .description nofun)).trans hdescription
    · exact (congrArg Option.join (hsame .expect nofun)).trans hexpect

omit [TreeFormat ν] in
theorem profile_readsExpect (room : Nat) :
    ReadsValue (fun table : List (String × ν) => profileOfEntries room (entriesOf table)) "expect"
      (optional (expectations room)) Profile.expect
      (fun expect profile => { profile with expect := expect }) := by
  refine (ProfileFields.record room).readsValue (ProfileFields.namesRepeated room)
    (ProfileFields.isOpen room) .expect (fun _ _ => rfl) (fun _ => rfl) (fun _ _ _ => rfl) ?_ ?_
  · intro s expect profile hs hexpect
    have hjoin := (ProfileFields.finish_eq_ok.mp hs).2.2.2
    exact hjoin.symm.trans (congrArg Option.join hexpect)
  · intro s t expect profile hs hexpect hsame
    rcases ProfileFields.finish_eq_ok.mp hs with ⟨hname, habi, hdescription, _⟩
    refine ProfileFields.finish_eq_ok.mpr ⟨?_, ?_, ?_, congrArg Option.join hexpect⟩
    · exact (hsame .name nofun).trans hname
    · exact (hsame .abi nofun).trans habi
    · exact (congrArg Option.join (hsame .description nofun)).trans hdescription

omit [TreeFormat ν] in
theorem snapshot_readsKind :
    ReadsValue (fun table : List (String × ν) => snapshotOfEntries (entriesOf table)) "kind"
      Format.choice Snapshot.kind (fun kind snapshot => { snapshot with kind := kind }) := by
  refine SnapshotFields.record.readsValue SnapshotFields.namesRepeated SnapshotFields.isOpen .kind
    (fun _ _ => rfl) (fun _ => rfl) (fun _ _ _ => rfl) ?_ ?_
  · intro s kind snapshot hs hmet
    have hkind := (SnapshotFields.finish_eq_ok.mp hs).1
    exact Option.some.inj (hkind.symm.trans hmet)
  · intro s t kind snapshot hs hkind hsame
    rcases SnapshotFields.finish_eq_ok.mp hs with ⟨_, hvalue, hrule⟩
    refine SnapshotFields.finish_eq_ok.mpr ⟨hkind, fun property => ?_, ?_⟩
    · exact (hsame (.value property) nofun).trans (hvalue property)
    · exact (hsame .tailPadding nofun).trans hrule

omit [TreeFormat ν] in
theorem snapshot_readsTailPadding :
    ReadsValue (fun table : List (String × ν) => snapshotOfEntries (entriesOf table))
      tailPaddingKey Format.choice Snapshot.tailPadding
      (fun rule snapshot => { snapshot with tailPadding := rule }) := by
  refine SnapshotFields.record.readsValue SnapshotFields.namesRepeated SnapshotFields.isOpen
    .tailPadding (fun _ _ => rfl) (fun _ => rfl) (fun _ _ _ => rfl) ?_ ?_
  · intro s rule snapshot hs hmet
    have hrule := (SnapshotFields.finish_eq_ok.mp hs).2.2
    exact Option.some.inj (hrule.symm.trans hmet)
  · intro s t rule snapshot hs hrule hsame
    rcases SnapshotFields.finish_eq_ok.mp hs with ⟨hkind, hvalue, _⟩
    refine SnapshotFields.finish_eq_ok.mpr ⟨?_, fun property => ?_, hrule⟩
    · exact (hsame .kind nofun).trans hkind
    · exact (hsame (.value property) nofun).trans (hvalue property)

theorem foldl_addPin_setTailPadding (pins : List (Property × Bool)) (e : Expectations)
    (rule : Option TailPadding) :
    { pins.foldl addPin e with tailPadding := rule } =
      pins.foldl addPin { e with tailPadding := rule } := by
  induction pins generalizing e with
  | nil => rfl
  | cons pin pins ih => exact ih (addPin e pin)

omit [TreeFormat ν] in
theorem fits_of_expectationsOfEntries {room : Nat} {table : List (String × ν)} {e : Expectations}
    (h : expectationsOfEntries room (entriesOf table) = .ok e) :
    (passRecord room).Fits none table := by
  rw [expectationsOfEntries, bind_eq_ok] at h
  rcases h with ⟨_, hpass, _⟩
  rw [separate_eq, map_eq_ok] at hpass
  rcases hpass with ⟨met, hfold, _⟩
  exact ((passRecord room).fills_of_foldlM hfold).fits

/-- The rule of expectations does not go through their pins. -/
theorem expectations_readsTailPadding (room : Nat) :
    ReadsValue (fun table : List (String × ν) => expectationsOfEntries room (entriesOf table))
      tailPaddingKey (optional Format.choice) Expectations.tailPadding
      (fun rule e => { e with tailPadding := rule }) where
  part_put _ _ := rfl
  put_part _ := rfl
  put_put _ _ _ := rfl
  decoded := by
    intro front back v e h
    rcases expectationsOfEntries_passes.mp h with ⟨rule, pins, honce, hrule, _, rfl⟩
    rw [foldl_addPin_tailPadding]
    exact hrule.decode honce mem_middle
  replaced := by
    intro front back v w e rule h hw
    rcases expectationsOfEntries_passes.mp h with ⟨_, pins, honce, _, hpins, rfl⟩
    refine expectationsOfEntries_passes.mpr ⟨rule, pins, ?_, .of_optional mem_middle hw, ?_, ?_⟩
    · rw [keys_replace]
      exact honce
    · rw [withoutTailPadding_replace] at hpins ⊢
      exact hpins
    · exact foldl_addPin_setTailPadding pins _ rule
  refused := by
    intro front back v w e failure h hfailure
    have hfits : (passRecord room).Fits none
        (front ++ (Named.name Expectations.Field.tailPadding, v) :: back) :=
      fits_of_expectationsOfEntries h
    exact expectationsOfEntries_eq_error.mpr (.tailPadding (hfits.firstFault hfailure))

end

end Decode
end AbiFacts
