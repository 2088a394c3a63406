import AbiFacts.Proofs.Decode.LooseSnapshots
import AbiFacts.Proofs.Decode.Positions
import AbiFacts.Proofs.Decode.Refusals

/-! # Records as arrays

A record may be written as the array of its fields in order. An array of a fitting length is decoded
as the object with the same values is, and any other array is refused for its length once its items
have been decoded (`ReadByFilling.decodedByPosition`).
-/
namespace AbiFacts

open Decode

namespace Json

abbrev profileRecord : Record (ν := Scan) ProfileFields Profile.Field
    (ProfileFields.step (maxNesting - 1)) :=
  ProfileFields.record (maxNesting - 1)

abbrev snapshotRecord : Record (ν := Scan) SnapshotFields Snapshot.Field SnapshotFields.step :=
  SnapshotFields.record

namespace Scan

/-! ## Items in order -/

section
variable {α β : Type} {wanted : Wanted} {size index : Nat} {decode : Scan → Except Failure α}

theorem required_nil_bind (next : α × List Scan → Except Failure β) :
    required wanted size index true decode [] >>= next =
      .error (.data (.invalidLength index wanted size)) := rfl

theorem required_cons_bind (item : Scan) (rest : List Scan)
    (next : α × List Scan → Except Failure β) :
    required wanted size index true decode (item :: rest) >>= next =
      decode item >>= fun a => next (a, rest) := by
  rw [required]
  cases decode item <;> rfl

theorem trailing_nil_bind (next : Option α × List Scan → Except Failure β) :
    trailing true decode [] >>= next = next (none, []) := rfl

theorem trailing_cons_bind (item : Scan) (rest : List Scan)
    (next : Option α × List Scan → Except Failure β) :
    trailing true decode (item :: rest) >>= next =
      optional decode item >>= fun a => next (a, rest) := by
  rw [trailing]
  cases optional decode item <;> rfl

end

/-- An array is read field by field, and then its length is judged. -/
theorem profileOfItems_eq (items : List Scan) :
    profileOfItems items true = profileRecord.fillItems {} Named.all items >>= fun fields =>
      if items.length < 2 then .error (.data (.invalidLength items.length .profile 4))
      else if 4 < items.length then .error .grammar
      else fields.finish := by
  rcases items with _ | ⟨name, _ | ⟨abi, _ | ⟨description, _ | ⟨expect, _ | ⟨more, rest⟩⟩⟩⟩⟩ <;>
    simp only [profileOfItems, required_nil_bind, required_cons_bind, trailing_nil_bind,
      trailing_cons_bind, Named.all, Record.fillItems_cons, Record.fillItems_nil,
      Record.fillItems_of_nil, bind_assoc]
  case cons.cons.cons.cons.cons =>
    have hshort : ¬ (name :: abi :: description :: expect :: more :: rest).length < 2 := by simp
    have hlong : 4 < (name :: abi :: description :: expect :: more :: rest).length := by simp
    simp only [if_neg hshort, if_pos hlong]
    rfl
  all_goals rfl

section
variable (fields : SnapshotFields) (later : List Snapshot.Field) (item : Scan) (items : List Scan)

theorem fillItems_kind : snapshotRecord.fillItems fields (.kind :: later) (item :: items) =
    choice item >>= fun kind =>
      snapshotRecord.fillItems { fields with kind := some kind } later items := rfl

theorem fillItems_value (property : Property) :
    snapshotRecord.fillItems fields (.value property :: later) (item :: items) =
      bool item >>= fun met => snapshotRecord.fillItems { fields with
        value := fun other => if other = property then some met else fields.value other }
          later items := rfl

theorem fillItems_tailPadding :
    snapshotRecord.fillItems fields (.tailPadding :: later) (item :: items) =
      choice item >>= fun rule =>
        snapshotRecord.fillItems { fields with tailPadding := some rule } later items := rfl

end

/-- The facts of an array are read one by one. -/
theorem valuesOfItems_eq (properties : List Property) (index : Nat) (fields : SnapshotFields)
    (items : List Scan) :
    valuesOfItems true index (fun property => (fields.value property).getD false) properties
        items =
      snapshotRecord.fillItems fields (properties.map .value) items >>= fun after =>
        if items.length < properties.length then
          .error (.data (.invalidLength (index + items.length) .snapshot 10))
        else .ok (fun property => (after.value property).getD false,
          items.drop properties.length) := by
  -- What has been met so far and the place of the next item differ from fact to fact.
  induction properties generalizing index fields items with
  | nil => rfl
  | cons property properties ih =>
    cases items with
    | nil => rfl
    | cons item items =>
      rw [valuesOfItems, required_cons_bind, List.map_cons, fillItems_value, bind_assoc]
      congr 1
      funext met
      have hvalue : (fun other => if other = property then met
          else (fields.value other).getD false) =
          fun other => (if other = property then some met else fields.value other).getD false := by
        funext other
        split <;> rfl
      have hindex : index + 1 + items.length = index + (item :: items).length := by
        rw [List.length_cons]
        omega
      have hmore := ih (index + 1) { fields with
        value := fun other => if other = property then some met else fields.value other } items
      rw [hindex] at hmore
      simp only [hvalue, hmore, List.length_cons, List.drop_succ_cons, Nat.add_lt_add_iff_right]

theorem ok_bind {α β : Type} (a : α) (next : α → Except Failure β) :
    (Except.ok a >>= next) = next a := rfl

/-- Once the facts have been read, a rule makes the snapshot complete. -/
theorem finish_of_fillItems {kind : Kind} {items : List Scan} {fields : SnapshotFields}
    (h : snapshotRecord.fillItems { kind := some kind } (Property.list.map .value) items =
      .ok fields) (hlength : 8 ≤ items.length) (rule : TailPadding) :
    { fields with tailPadding := some rule }.finish =
      .ok (.ofValues kind (fun property => (fields.value property).getD false) rule) := by
  have hkind : fields.kind = some kind :=
    Record.met_of_fillItems_of_notMem h .kind (by simp)
  have hvalue : ∀ property, (fields.value property).isSome := by
    intro property
    have hmem : Snapshot.Field.value property ∈ Property.list.map .value :=
      List.mem_map_of_mem (Named.mem_all property)
    exact Record.isSome_met_of_fillItems h hlength hmem
  apply SnapshotFields.finish_eq_ok.mpr
  refine ⟨hkind, ?_, rfl⟩
  intro property
  rcases Option.isSome_iff_exists.mp (hvalue property) with ⟨truth, htruth⟩
  simp [htruth]

/-- The rule is the last item, and nothing may follow it. -/
theorem lastOfItems_eq {fields : SnapshotFields} {kind : Kind} {value : Property → Bool}
    (hfinish : ∀ rule, { fields with tailPadding := some rule }.finish =
      .ok (.ofValues kind value rule))
    (rest : List Scan) :
    (required .snapshot 10 9 true choice rest >>= fun (rule, items) =>
      finished true items >>= fun _ =>
        (.ok (.ofValues kind value rule) : Except Failure Snapshot)) =
      snapshotRecord.fillItems fields [.tailPadding] rest >>= fun after =>
        if rest.length < 1 then .error (.data (.invalidLength 9 .snapshot 10))
        else if 1 < rest.length then .error .grammar
        else after.finish := by
  cases rest with
  | nil => rfl
  | cons item rest =>
    rw [required_cons_bind, fillItems_tailPadding, bind_assoc]
    congr 1
    funext rule
    cases rest with
    | nil => exact (hfinish rule).symm
    | cons more rest =>
      have hlong : 1 < (item :: more :: rest).length := by simp
      rw [Record.fillItems_nil, ok_bind, if_neg (by omega), if_pos hlong]
      rfl

/-- An array is read field by field, and then its length is judged. -/
theorem snapshotOfItems_eq (items : List Scan) :
    snapshotOfItems items true = snapshotRecord.fillItems {} Named.all items >>= fun fields =>
      if items.length < 10 then .error (.data (.invalidLength items.length .snapshot 10))
      else if 10 < items.length then .error .grammar
      else fields.finish := by
  have hall : (Named.all : List Snapshot.Field) =
      .kind :: (Property.list.map .value ++ [.tailPadding]) := rfl
  rw [snapshotOfItems, hall]
  cases items with
  | nil => rfl
  | cons item items =>
    rw [required_cons_bind, fillItems_kind, bind_assoc]
    congr 1
    funext kind
    have hvalues := valuesOfItems_eq Property.list 1 { kind := some kind } items
    have height : Property.list.length = 8 := rfl
    simp only [Option.getD_none, height] at hvalues
    rw [Record.fillItems_append, bind_assoc, List.length_map, height]
    simp only [hvalues, bind_assoc]
    cases hfields : snapshotRecord.fillItems { kind := some kind } (Property.list.map .value)
        items with
    | error failure => rfl
    | ok fields =>
      rw [ok_bind, ok_bind, List.length_cons]
      -- The array ends among the facts, or the rule is looked for after them.
      by_cases hshort : items.length < 8
      · rw [if_pos hshort, List.drop_eq_nil_of_le (by omega), Record.fillItems_of_nil, ok_bind,
          if_pos (by omega), Nat.add_comm]
        rfl
      · have hlast := lastOfItems_eq (finish_of_fillItems hfields (by omega)) (items.drop 8)
        rw [if_neg hshort]
        refine hlast.trans ?_
        congr 1
        funext after
        rw [List.length_drop]
        have hless : items.length - 8 < 1 ↔ items.length + 1 < 10 := by omega
        have hmore : 1 < items.length - 8 ↔ 10 < items.length + 1 := by omega
        simp only [hless, hmore]
        by_cases hnine : items.length + 1 < 10
        · have height : items.length = 8 := by omega
          rw [if_pos hnine, if_pos hnine, height]
        · rw [if_neg hnine, if_neg hnine]

end Scan

/-! ## Texts -/

/-- A text is decoded from its scan, and nothing may follow the value. -/
theorem decode_eq {α : Type} {read : Scan → Except Failure α} {text : String} {value : Scan}
    {trailing : Bool} (h : scan text = (value, trailing)) :
    decode read text = read value >>= fun a => if trailing then .error .grammar else .ok a := by
  rw [decode, h]
  rfl

/-- The object that gives the values to the first of the fields. -/
def Scan.keyed (φ : Type) [Named φ] (items : List Scan) : Scan :=
  .ofTable ((Named.names φ).zip items)

/-- How arrays are decoded as a record of `size` fields, of which `least` are required. -/
structure DecodedByPosition {α σ φ : Type} [Named φ] {step : σ → Entry Scan → Except Failure σ}
    (record : Record σ φ step) (read : String → Except Failure α) (wanted : Wanted)
    (least size : Nat) : Prop where
  /-- An array of a fitting length has the outcome of the object with these values. -/
  keyed : ∀ {text other : String} {items : List Scan} {trailing : Bool},
    scan text = (.array items true, trailing) → scan other = (.keyed φ items, trailing) →
    least ≤ items.length → items.length ≤ size → read text = read other
  short : ∀ {text : String} {items : List Scan} {trailing : Bool},
    scan text = (.array items true, trailing) → items.length < least →
    record.ItemsDecode Named.all items →
    read text = .error (.data (.invalidLength items.length wanted size))
  long : ∀ {text : String} {items : List Scan} {trailing : Bool},
    scan text = (.array items true, trailing) → size < items.length →
    record.ItemsDecode Named.all items → read text = .error .grammar

/-- A record is read by filling its fields: from arrays in order, whose length is judged after that,
and from objects by key. -/
structure ReadByFilling {α σ φ : Type} [Named φ] {step : σ → Entry Scan → Except Failure σ}
    (record : Record σ φ step) (read : Scan → Except Failure α) (start : σ)
    (finish : σ → Except Failure α) (wanted : Wanted) (least size : Nat) : Prop where
  isOpen : ∀ field, record.met start field = none
  array : ∀ items, read (.array items true) =
    record.fillItems start Named.all items >>= fun fields =>
      if items.length < least then .error (.data (.invalidLength items.length wanted size))
      else if size < items.length then .error .grammar
      else finish fields
  table : ∀ table, read (.ofTable table) = (entriesOf table).foldlM step start >>= finish

section
variable {α σ φ : Type} [Named φ] {step : σ → Entry Scan → Except Failure σ}
variable {record : Record σ φ step} {read : Scan → Except Failure α} {start : σ}
variable {finish : σ → Except Failure α} {wanted : Wanted} {least size : Nat}

/-- Filling in order is filling by the keys in this order. -/
theorem ReadByFilling.fillItems_eq
    (h : ReadByFilling record read start finish wanted least size) (items : List Scan) :
    record.fillItems start Named.all items =
      (entriesOf ((Named.names φ).zip items)).foldlM step start := by
  rw [Named.names, record.foldlM_zip Named.nodup_all fun field _ => h.isOpen field]

theorem ReadByFilling.decodedByPosition
    (h : ReadByFilling record read start finish wanted least size) (hsize : least ≤ size) :
    DecodedByPosition record (decode read) wanted least size where
  keyed := by
    intro text other items trailing htext hother hleast hmost
    have hkeyed : read (.array items true) = read (.keyed φ items) := by
      rw [h.array, Scan.keyed, h.table, h.fillItems_eq]
      simp only [if_neg (Nat.not_lt.mpr hleast), if_neg (Nat.not_lt.mpr hmost)]
    rw [decode_eq htext, decode_eq hother, hkeyed]
  short := by
    intro text items trailing htext hshort hitems
    rcases record.exists_fillItems hitems start with ⟨fields, hfields⟩
    rw [decode_eq htext, h.array, hfields, Scan.ok_bind, if_pos hshort]
    rfl
  long := by
    intro text items trailing htext hlong hitems
    rcases record.exists_fillItems hitems start with ⟨fields, hfields⟩
    rw [decode_eq htext, h.array, hfields, Scan.ok_bind,
      if_neg (Nat.not_lt.mpr (Nat.le_trans hsize hlong.le)), if_pos hlong]
    rfl

end

theorem profile_readByFilling :
    ReadByFilling profileRecord Scan.profile {} ProfileFields.finish .profile 2 4 where
  isOpen := by rintro ⟨⟩ <;> rfl
  array := Scan.profileOfItems_eq
  table := profile_ofTable

theorem snapshot_ofTable (table : List (String × Scan)) :
    (Scan.ofTable table).snapshot = snapshotOfEntries (entriesOf table) := by
  rw [← Scan.steps_ofTable]
  rfl

theorem snapshot_readByFilling :
    ReadByFilling snapshotRecord Scan.snapshot {} SnapshotFields.finish .snapshot 10 10 where
  isOpen := SnapshotFields.isOpen
  array := Scan.snapshotOfItems_eq
  table := snapshot_ofTable

end Json
end AbiFacts
