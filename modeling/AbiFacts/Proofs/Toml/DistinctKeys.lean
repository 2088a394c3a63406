import AbiFacts.Proofs.Tables
import AbiFacts.Toml.Document

/-! # Keys of TOML tables

A key is never defined twice: every table in a document that has been read, at whatever depth, has
distinct keys (`distinct_of_read?`). Headers and dotted keys change a growing table only in ways
that keep this.
-/
namespace AbiFacts.Toml

inductive Value.Distinct : Value → Prop where
  | string {text : String} : Distinct (.string text)
  | integer {value : Int} : Distinct (.integer value)
  | float {value : FloatLiteral} : Distinct (.float value)
  | boolean {value : Bool} : Distinct (.boolean value)
  | datetime {text : String} : Distinct (.datetime text)
  | array {items : List Value} (h : ∀ item ∈ items, Distinct item) : Distinct (.array items)
  | table {entries : Table} (hkeys : (keys entries).Nodup)
      (h : ∀ entry ∈ entries, Distinct entry.2) : Distinct (.table entries)
  | tables {items : List Table} (hkeys : ∀ item ∈ items, (keys item).Nodup)
      (h : ∀ item ∈ items, ∀ entry ∈ item, Distinct entry.2) : Distinct (.tables items)

inductive Node.Distinct : Node → Prop where
  | value {value : Value} (h : value.Distinct) : Distinct (.value value)
  | table {origin : Origin} {inner : Outline} (hkeys : (keys inner).Nodup)
      (h : ∀ entry ∈ inner, Distinct entry.2) : Distinct (.table origin inner)
  | tables {items : List Outline} (hkeys : ∀ item ∈ items, (keys item).Nodup)
      (h : ∀ item ∈ items, ∀ entry ∈ item, Distinct entry.2) : Distinct (.tables items)

structure Outline.Distinct (outline : Outline) : Prop where
  keys : (keys outline).Nodup
  nodes : ∀ entry ∈ outline, entry.2.Distinct

/-! ## Changes -/

namespace Outline

theorem Distinct.nil : Distinct [] := ⟨.nil, by simp⟩

theorem Distinct.append {outline : Outline} (h : outline.Distinct) {key : String} {node : Node}
    (hkey : key ∉ AbiFacts.keys outline) (hnode : node.Distinct) :
    Distinct (outline ++ [(key, node)]) := by
  constructor
  · rw [keys_append, List.nodup_append]
    refine ⟨h.keys, by simp, ?_⟩
    intro other hother last hlast heq
    obtain rfl := List.mem_singleton.mp hlast
    exact hkey (heq ▸ hother)
  · intro entry hentry
    obtain hentry | hentry := List.mem_append.mp hentry
    · exact h.nodes entry hentry
    · obtain rfl := List.mem_singleton.mp hentry
      exact hnode

theorem keys_put (key : String) (node : Node) (outline : Outline) :
    AbiFacts.keys (outline.put key node) = AbiFacts.keys outline := by
  rw [put, AbiFacts.keys, List.map_map]
  refine List.map_congr_left fun entry _ => ?_
  by_cases h : entry.1 = key <;> simp [h]

theorem Distinct.put {outline : Outline} (h : outline.Distinct) (key : String) {node : Node}
    (hnode : node.Distinct) : (outline.put key node).Distinct := by
  constructor
  · rw [keys_put]
    exact h.keys
  · intro entry hentry
    obtain ⟨⟨other, old⟩, hmem, rfl⟩ := List.mem_map.mp hentry
    by_cases hkey : other = key
    · simpa [hkey] using hnode
    · simpa [hkey] using h.nodes _ hmem

theorem Distinct.without {outline : Outline} (h : outline.Distinct) (key : String) :
    Distinct (outline.filter fun entry => entry.1 != key) := by
  constructor
  · exact h.keys.sublist (List.filter_sublist.map Prod.fst)
  · exact fun entry hentry => h.nodes entry (List.mem_filter.mp hentry).1

theorem not_mem_without (key : String) (outline : Outline) :
    key ∉ AbiFacts.keys (outline.filter fun entry => entry.1 != key) := by
  simp [mem_keys]

theorem Distinct.lookup {outline : Outline} (h : outline.Distinct) {key : String} {node : Node}
    (hlookup : outline.lookup key = some node) : node.Distinct :=
  h.nodes (key, node) ((lookup_eq_some h.keys).mp hlookup)

theorem Distinct.table {outline : Outline} (h : outline.Distinct) (origin : Origin) :
    Node.Distinct (.table origin outline) :=
  .table h.keys h.nodes

theorem Distinct.tables {items : List Outline} (h : ∀ item ∈ items, Distinct item) :
    Node.Distinct (.tables items) :=
  .tables (fun item hitem => (h item hitem).keys) fun item hitem => (h item hitem).nodes

theorem Distinct.of_table {origin : Origin} {inner : Outline}
    (h : Node.Distinct (.table origin inner)) : Distinct inner := by
  cases h with
  | table hkeys hnodes => exact ⟨hkeys, hnodes⟩

theorem Distinct.of_tables {items : List Outline} (h : Node.Distinct (.tables items)) :
    ∀ item ∈ items, Distinct item := by
  cases h with
  | tables hkeys hnodes => exact fun item hitem => ⟨hkeys item hitem, hnodes item hitem⟩

theorem Distinct.tables_append {items : List Outline} {last : Outline}
    (hitems : ∀ item ∈ items, Distinct item) (hlast : last.Distinct) :
    Node.Distinct (.tables (items ++ [last])) := by
  refine Distinct.tables fun item hitem => ?_
  obtain hitem | hitem := List.mem_append.mp hitem
  · exact hitems item hitem
  · exact List.mem_singleton.mp hitem ▸ hlast

def KeepsDistinct (change : Origin → Outline → Option Outline) : Prop :=
  ∀ origin outline next, outline.Distinct → change origin outline = some next → next.Distinct

theorem KeepsDistinct.descend {change : Origin → Outline → Option Outline}
    (h : KeepsDistinct change) (dotted : Bool) (path : List String) :
    KeepsDistinct (Outline.descend dotted change path) := by
  induction path with
  | nil => exact h
  | cons key path ih =>
    intro origin outline next houtline hnext
    rw [Outline.descend] at hnext
    split at hnext
    case h_1 hlookup =>
      obtain ⟨inner, hinner, hsome⟩ := Option.bind_eq_some_iff.mp hnext
      obtain rfl := Option.some.inj hsome
      exact houtline.append (lookup_eq_none.mp hlookup) ((ih _ _ _ .nil hinner).table _)
    case h_2 => cases hnext
    case h_3 origin inner hlookup =>
      split at hnext
      · cases hnext
      · obtain ⟨new, hnew, hsome⟩ := Option.bind_eq_some_iff.mp hnext
        obtain rfl := Option.some.inj hsome
        have hinner := Distinct.of_table (houtline.lookup hlookup)
        exact houtline.put key ((ih _ _ _ hinner hnew).table origin)
    case h_4 items hlookup =>
      obtain ⟨last, hlast, hnext⟩ := Option.bind_eq_some_iff.mp hnext
      obtain ⟨new, hnew, hsome⟩ := Option.bind_eq_some_iff.mp hnext
      obtain rfl := Option.some.inj hsome
      have hitems := Distinct.of_tables (houtline.lookup hlookup)
      have hnewItem := ih _ _ _ (hitems last (List.mem_of_getLast? hlast)) hnew
      refine houtline.put key (Distinct.tables_append (fun item hitem => ?_) hnewItem)
      exact hitems item (List.dropLast_subset items hitem)

theorem keepsDistinct_addValue (path : List String) (key : String) {value : Value}
    (h : value.Distinct) : KeepsDistinct (addValue path key value) := by
  refine KeepsDistinct.descend (fun origin outline next houtline hnext => ?_) true path
  split at hnext
  · cases hnext
  split at hnext
  · cases hnext
  case isFalse hnone =>
    obtain rfl := Option.some.inj hnext
    rw [Bool.not_eq_true, Option.isSome_eq_false_iff, Option.isNone_iff_eq_none] at hnone
    exact houtline.append (lookup_eq_none.mp hnone) (.value h)

theorem keepsDistinct_addTable (path : List String) (key : String) {outline next : Outline}
    (h : outline.Distinct) (hnext : addTable path key outline = some next) : next.Distinct := by
  refine KeepsDistinct.descend (fun origin outline next houtline hnext => ?_) false path _ _ _ h
    hnext
  split at hnext
  case h_1 hlookup =>
    obtain rfl := Option.some.inj hnext
    exact houtline.append (lookup_eq_none.mp hlookup) (Distinct.nil.table _)
  case h_2 inner hlookup =>
    obtain rfl := Option.some.inj hnext
    have hinner := Distinct.of_table (houtline.lookup hlookup)
    exact (houtline.without key).append (not_mem_without key outline) (hinner.table _)
  case h_3 => cases hnext

theorem keepsDistinct_addElement (path : List String) (key : String) {outline next : Outline}
    (h : outline.Distinct) (hnext : addElement path key outline = some next) : next.Distinct := by
  refine KeepsDistinct.descend (fun origin outline next houtline hnext => ?_) false path _ _ _ h
    hnext
  split at hnext
  case h_1 hlookup =>
    obtain rfl := Option.some.inj hnext
    exact houtline.append (lookup_eq_none.mp hlookup) (Distinct.tables (by simp [Distinct.nil]))
  case h_2 items hlookup =>
    obtain rfl := Option.some.inj hnext
    have hitems := Distinct.of_tables (houtline.lookup hlookup)
    exact houtline.put key (Distinct.tables_append hitems .nil)
  case h_3 => cases hnext

end Outline

/-! ## Finished tables -/

theorem finishEntries_eq_map (outline : Outline) :
    Node.finishEntries outline = outline.map fun entry => (entry.1, entry.2.finish) := by
  induction outline with
  | nil => rfl
  | cons entry outline ih => rw [Node.finishEntries, ih, List.map_cons]

theorem finishItems_eq_map (items : List Outline) :
    Node.finishItems items = items.map Node.finishEntries := by
  induction items with
  | nil => rfl
  | cons item items ih => rw [Node.finishItems, ih, List.map_cons]

theorem keys_finishEntries (outline : Outline) :
    keys (Node.finishEntries outline) = keys outline := by
  rw [finishEntries_eq_map, keys_map]

theorem Node.Distinct.finish {node : Node} (h : node.Distinct) : node.finish.Distinct := by
  induction h with
  | value h =>
    rw [Node.finish]
    exact h
  | @table origin inner hkeys _ ih =>
    rw [Node.finish]
    refine .table (keys_finishEntries inner ▸ hkeys) fun entry hentry => ?_
    rw [finishEntries_eq_map] at hentry
    obtain ⟨old, hold, rfl⟩ := List.mem_map.mp hentry
    exact ih old hold
  | @tables items hkeys _ ih =>
    rw [Node.finish, finishItems_eq_map]
    refine .tables (fun item hitem => ?_) fun item hitem entry hentry => ?_
    · obtain ⟨old, hold, rfl⟩ := List.mem_map.mp hitem
      exact keys_finishEntries old ▸ hkeys old hold
    · obtain ⟨old, hold, rfl⟩ := List.mem_map.mp hitem
      rw [finishEntries_eq_map] at hentry
      obtain ⟨node, hnode, rfl⟩ := List.mem_map.mp hentry
      exact ih old hold node hnode

theorem Outline.Distinct.finish {outline : Outline} (h : outline.Distinct) :
    Value.Distinct (.table (Node.finishEntries outline)) := by
  have hnode := (h.table .explicit).finish
  rwa [Node.finish] at hnode

/-! ## Reading -/

def YieldsDistinct (reader : Reader) : Prop :=
  ∀ text value rest, reader text = some (value, rest) → value.Distinct

theorem based?_distinct (base : Nat) : YieldsDistinct (based? base) := by
  intro text value rest h
  obtain ⟨digits, _, h⟩ := Option.bind_eq_some_iff.mp h
  dsimp only at h
  split at h
  · cases h
    exact .integer
  · cases h

theorem decimal?_distinct : YieldsDistinct decimal? := by
  intro text value rest h
  unfold decimal? at h
  generalize sign text = signed at h
  obtain ⟨⟨whole, after⟩, _, h⟩ := Option.bind_eq_some_iff.mp h
  dsimp only at h
  split at h
  · cases h
  obtain ⟨⟨fraction, after⟩, _, h⟩ := Option.bind_eq_some_iff.mp h
  obtain ⟨⟨exponent, after⟩, _, h⟩ := Option.bind_eq_some_iff.mp h
  dsimp only at h
  split at h
  · obtain ⟨_, h⟩ := Option.ite_none_right_eq_some.mp h
    cases h
    exact .integer
  · obtain ⟨_, h⟩ := Option.ite_none_left_eq_some.mp h
    cases h
    exact .float

theorem number?_distinct : YieldsDistinct number? := by
  intro text value rest h
  unfold number? at h
  split at h
  · exact based?_distinct 16 _ _ _ h
  · exact based?_distinct 8 _ _ _ h
  · exact based?_distinct 2 _ _ _ h
  split at h
  · cases h
    exact .float
  · cases h
    exact .float
  · exact decimal?_distinct _ _ _ h

theorem scalar?_distinct : YieldsDistinct scalar? := by
  intro text value rest h
  unfold scalar? at h
  split at h
  · obtain ⟨_, _, hvalue⟩ := Option.map_eq_some_iff.mp h
    cases hvalue
    exact .string
  · obtain ⟨_, _, hvalue⟩ := Option.map_eq_some_iff.mp h
    cases hvalue
    exact .string
  · cases h
    exact .boolean
  · cases h
    exact .boolean
  split at h
  · cases h
    exact .datetime
  · exact number?_distinct _ _ _ h

theorem YieldsDistinct.items {value? : Reader} (hvalue : YieldsDistinct value?) {fuel : Nat}
    {text rest : List Char} {items : List Value}
    (h : items? value? fuel text = some (items, rest)) : ∀ item ∈ items, item.Distinct := by
  induction fuel generalizing text items rest with
  | zero => cases h
  | succ fuel ih =>
    rw [items?] at h
    split at h
    · cases h
      simp
    obtain ⟨⟨item, after⟩, hitem, h⟩ := Option.bind_eq_some_iff.mp h
    have hfirst := hvalue _ _ _ hitem
    dsimp only at h
    split at h
    · obtain ⟨⟨more, after⟩, hmore, h⟩ := Option.bind_eq_some_iff.mp h
      cases h
      exact List.forall_mem_cons.mpr ⟨hfirst, ih hmore⟩
    · cases h
      exact List.forall_mem_singleton.mpr hfirst
    · cases h

theorem YieldsDistinct.pair {value? : Reader} (hvalue : YieldsDistinct value?)
    {text rest : List Char} {path : List String} {key : String} {value : Value}
    (h : pair? value? text = some ((path, key, value), rest)) : value.Distinct := by
  obtain ⟨⟨⟨path, key⟩, after⟩, _, h⟩ := Option.bind_eq_some_iff.mp h
  obtain ⟨after, _, h⟩ := Option.bind_eq_some_iff.mp h
  obtain ⟨⟨value, after⟩, hread, h⟩ := Option.bind_eq_some_iff.mp h
  cases h
  exact hvalue _ _ _ hread

theorem YieldsDistinct.pairs {value? : Reader} (hvalue : YieldsDistinct value?) {fuel : Nat}
    {text rest : List Char} {outline next : Outline} (houtline : outline.Distinct)
    (h : pairs? value? outline fuel text = some (next, rest)) : next.Distinct := by
  induction fuel generalizing text outline rest with
  | zero => cases h
  | succ fuel ih =>
    rw [pairs?] at h
    obtain ⟨⟨⟨path, key, value⟩, after⟩, hpair, h⟩ := Option.bind_eq_some_iff.mp h
    obtain ⟨added, hadded, h⟩ := Option.bind_eq_some_iff.mp h
    have hkeeps := Outline.keepsDistinct_addValue path key (hvalue.pair hpair)
    have hnew := hkeeps _ _ _ houtline hadded
    split at h
    · exact ih hnew h
    · cases h
      exact hnew
    · cases h

theorem value?_distinct (room : Nat) : YieldsDistinct (value? room) := by
  induction room with
  | zero => exact scalar?_distinct
  | succ room ih =>
    intro text value rest h
    unfold value? at h
    split at h
    · obtain ⟨⟨items, after⟩, hitems, hvalue⟩ := Option.map_eq_some_iff.mp h
      cases hvalue
      exact .array (ih.items hitems)
    · split at h
      · cases h
        exact .table .nil (by simp)
      · obtain ⟨⟨outline, after⟩, hpairs, hvalue⟩ := Option.map_eq_some_iff.mp h
        cases hvalue
        exact (ih.pairs .nil hpairs).finish
    · exact scalar?_distinct _ _ _ h

/-! ## Documents -/

def Expression.Distinct : Expression → Prop
  | .pair _ _ value => value.Distinct
  | .header _ _ | .element _ _ => True

theorem expression?_distinct {text rest : List Char} {expression : Expression}
    (h : expression? text = some (expression, rest)) : expression.Distinct := by
  unfold expression? at h
  split at h
  · obtain ⟨⟨⟨path, key⟩, after⟩, _, h⟩ := Option.bind_eq_some_iff.mp h
    obtain ⟨after, _, h⟩ := Option.bind_eq_some_iff.mp h
    obtain ⟨after, _, h⟩ := Option.bind_eq_some_iff.mp h
    cases h
    exact trivial
  · obtain ⟨⟨⟨path, key⟩, after⟩, _, h⟩ := Option.bind_eq_some_iff.mp h
    obtain ⟨after, _, h⟩ := Option.bind_eq_some_iff.mp h
    obtain ⟨after, _, h⟩ := Option.bind_eq_some_iff.mp h
    cases h
    exact trivial
  · obtain ⟨⟨⟨path, key, value⟩, after⟩, hpair, h⟩ := Option.bind_eq_some_iff.mp h
    obtain ⟨after, _, h⟩ := Option.bind_eq_some_iff.mp h
    cases h
    exact (value?_distinct _).pair hpair

theorem expressionsWithin?_distinct {fuel : Nat} {text : List Char} {expressions : List Expression}
    (h : expressionsWithin? fuel text = some expressions) :
    ∀ expression ∈ expressions, expression.Distinct := by
  induction fuel generalizing text expressions with
  | zero => cases h
  | succ fuel ih =>
    rw [expressionsWithin?] at h
    split at h
    · cases h
      simp
    · obtain ⟨⟨expression, after⟩, hfirst, h⟩ := Option.bind_eq_some_iff.mp h
      obtain ⟨more, hmore, h⟩ := Option.bind_eq_some_iff.mp h
      cases h
      exact List.forall_mem_cons.mpr ⟨expression?_distinct hfirst, ih hmore⟩

theorem outline?_distinct {expressions : List Expression} {table : List String}
    {outline next : Outline} (hexpressions : ∀ expression ∈ expressions, expression.Distinct)
    (houtline : outline.Distinct) (h : outline? expressions table outline = some next) :
    next.Distinct := by
  induction expressions generalizing table outline with
  | nil =>
    cases h
    exact houtline
  | cons expression expressions ih =>
    obtain ⟨hfirst, hmore⟩ := List.forall_mem_cons.mp hexpressions
    cases expression with
    | pair path key value =>
      obtain ⟨added, hadded, h⟩ := Option.bind_eq_some_iff.mp h
      refine ih hmore ?_ h
      have hkeeps := Outline.keepsDistinct_addValue path key hfirst
      exact Outline.KeepsDistinct.descend (fun _ => hkeeps .explicit) false table _ _ _ houtline
        hadded
    | header path key =>
      obtain ⟨added, hadded, h⟩ := Option.bind_eq_some_iff.mp h
      exact ih hmore (Outline.keepsDistinct_addTable path key houtline hadded) h
    | element path key =>
      obtain ⟨added, hadded, h⟩ := Option.bind_eq_some_iff.mp h
      exact ih hmore (Outline.keepsDistinct_addElement path key houtline hadded) h

/-- The table of a text has distinct keys, and so have all tables in it. -/
theorem distinct_of_read? {text : String} {table : Table} (h : read? text = some table) :
    Value.Distinct (.table table) := by
  obtain ⟨expressions, hexpressions, h⟩ := Option.bind_eq_some_iff.mp h
  obtain ⟨outline, houtline, h⟩ := Option.bind_eq_some_iff.mp h
  cases h
  exact (outline?_distinct (expressionsWithin?_distinct hexpressions) .nil houtline).finish

end AbiFacts.Toml
