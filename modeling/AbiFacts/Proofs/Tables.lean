/-! # Tables of entries

A table is a list of keys with values. Where its keys are distinct, membership of an entry is the
same as looking its key up, and only then is the order of the entries without effect.
-/
namespace AbiFacts

variable {α β : Type}

def keys (table : List (String × α)) : List String := table.map Prod.fst

@[simp] theorem keys_nil : keys ([] : List (String × α)) = [] := rfl

@[simp] theorem keys_cons (entry : String × α) (table : List (String × α)) :
    keys (entry :: table) = entry.1 :: keys table := rfl

@[simp] theorem keys_append (a b : List (String × α)) : keys (a ++ b) = keys a ++ keys b :=
  List.map_append

theorem mem_keys {table : List (String × α)} {key : String} :
    key ∈ keys table ↔ ∃ value, (key, value) ∈ table := by
  simp [keys]

theorem mem_keys_of_mem {table : List (String × α)} {key : String} {value : α}
    (h : (key, value) ∈ table) : key ∈ keys table :=
  mem_keys.mpr ⟨value, h⟩

/-- Changing values keeps the keys. -/
theorem keys_map (f : String × α → β) (table : List (String × α)) :
    keys (table.map fun entry => (entry.1, f entry)) = keys table := by
  simp [keys]

theorem lookup_eq_none {table : List (String × α)} {key : String} :
    table.lookup key = none ↔ key ∉ keys table := by
  induction table with
  | nil => simp
  | cons entry table ih =>
    obtain ⟨other, value⟩ := entry
    by_cases h : key = other
    · simp [h]
    · have hne : (key == other) = false := by simpa using h
      simp [List.lookup_cons, hne, ih, h]

theorem lookup_eq_some {table : List (String × α)} (hkeys : (keys table).Nodup) {key : String}
    {value : α} : table.lookup key = some value ↔ (key, value) ∈ table := by
  induction table with
  | nil => simp
  | cons entry table ih =>
    obtain ⟨other, first⟩ := entry
    rw [keys_cons, List.nodup_cons] at hkeys
    by_cases h : key = other
    · subst h
      have hno : (key, value) ∉ table := fun hmem => hkeys.1 (mem_keys_of_mem hmem)
      simp [hno, eq_comm]
    · have hne : (key == other) = false := by simpa using h
      simp [List.lookup_cons, hne, ih hkeys.2, h]

/-- A key that occurs once has one value. -/
theorem value_unique_of_count {table : List (String × α)} {key : String}
    (hcount : (keys table).count key ≤ 1) {a b : α} (ha : (key, a) ∈ table)
    (hb : (key, b) ∈ table) : a = b := by
  induction table with
  | nil => cases ha
  | cons entry table ih =>
    obtain ⟨other, first⟩ := entry
    rw [List.mem_cons, Prod.mk.injEq] at ha hb
    by_cases hkey : key = other
    · subst hkey
      rw [keys_cons, List.count_cons_self] at hcount
      have hno : key ∉ keys table := List.count_eq_zero.mp (by omega)
      have hmore : ∀ value, (key, value) ∉ table := fun _ hmem => hno (mem_keys_of_mem hmem)
      rw [(ha.resolve_right (hmore a)).2, (hb.resolve_right (hmore b)).2]
    · have hne : ∀ value, ¬ (key = other ∧ value = first) := fun _ h => hkey h.1
      have hle : (keys table).count key ≤ 1 := by
        rw [keys_cons, List.count_cons] at hcount
        omega
      exact ih hle (ha.resolve_left (hne a)) (hb.resolve_left (hne b))

/-- In a table with distinct keys every key has one value. -/
theorem value_unique {table : List (String × α)} (hkeys : (keys table).Nodup) {key : String}
    {a b : α} (ha : (key, a) ∈ table) (hb : (key, b) ∈ table) : a = b :=
  value_unique_of_count (List.nodup_iff_count.mp hkeys key) ha hb

end AbiFacts
