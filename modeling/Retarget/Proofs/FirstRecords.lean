import Mathlib.Data.Finset.Card
import Mathlib.Data.List.Induction
import Retarget.Pass.Memo

/-!
# A memo keeps first records

Records may come in any order, more than once for a node, and for nodes that replace one another.
A memo keeps the first record of each node and nothing else, in the order in which these were made;
its index has exactly the positions of the entries, and a look-up gives what was recorded first.

## Key results

- `Memo.EntersFirst`: the entries are the first records of their nodes, in order
- `Memo.EntersFirst.record`: one more record keeps it so
- `Memo.ofRecords_remembers`: what a memo is after any sequence of records
-/

namespace Retarget

namespace Memo

/-- The memo after some records, one after another. -/
def ofRecords (records : List (Expr × Expr)) : Memo :=
  records.foldl (fun memo (node, replacement) => memo.record node replacement) .empty

/-- The first record of a node. -/
def firstRecord? (records : List (Expr × Expr)) (node : Expr) : Option (Expr × Expr) :=
  records.find? fun record => record.1.id = node.id

/-- The number of records before the first one of a node; all of them, if it has none. -/
def firstPosition (records : List (Expr × Expr)) (node : Expr) : Nat :=
  records.findIdx fun record => record.1.id = node.id

/-! ## First records -/

variable {records : List (Expr × Expr)} {node : Expr}

/-- First records are told apart by identity alone. -/
theorem firstRecord?_congr {other : Expr} (h : node.id = other.id) :
    firstRecord? records node = firstRecord? records other := by
  rw [firstRecord?, h, firstRecord?]

/-- The position of a first record depends on the identity of the node alone. -/
theorem firstPosition_congr {other : Expr} (h : node.id = other.id) :
    firstPosition records node = firstPosition records other := by
  rw [firstPosition, h, firstPosition]

/-- A first record is one of the records, and for the node in question. -/
theorem mem_of_firstRecord? {record : Expr × Expr} (h : firstRecord? records node = some record) :
    record ∈ records ∧ record.1.id = node.id :=
  ⟨List.mem_of_find?_eq_some h, by simpa using List.find?_some h⟩

/-- A node that was recorded has a first record. -/
theorem exists_firstRecord? {record : Expr × Expr} (h : record ∈ records) :
    ∃ first, firstRecord? records record.1 = some first := by
  rw [← Option.isSome_iff_exists, firstRecord?, List.find?_isSome]
  exact ⟨record, h, by simp⟩

/-- A later record is the first one only of a node that had none. -/
theorem firstRecord?_concat (records : List (Expr × Expr)) (node replacement other : Expr) :
    firstRecord? (records ++ [(node, replacement)]) other =
      (firstRecord? records other).or
        (if node.id = other.id then some (node, replacement) else none) := by
  by_cases h : node.id = other.id <;> simp [firstRecord?, List.find?_append, h]

/-- A node with a record has its first one somewhere among them. -/
theorem firstPosition_lt {record : Expr × Expr} (h : firstRecord? records node = some record) :
    firstPosition records node < records.length := by
  obtain ⟨hmem, hid⟩ := mem_of_firstRecord? h
  exact List.findIdx_lt_length.mpr ⟨record, hmem, by simpa using hid⟩

/-- Later records do not change where the first one of a node stands. -/
theorem firstPosition_append {record : Expr × Expr} (h : firstRecord? records node = some record)
    (later : List (Expr × Expr)) :
    firstPosition (records ++ later) node = firstPosition records node :=
  List.findIdx_append.trans (if_pos (firstPosition_lt h))

/-- A node that had no record is recorded after all others. -/
theorem firstPosition_concat_self (h : firstRecord? records node = none) (replacement : Expr) :
    firstPosition (records ++ [(node, replacement)]) node = records.length := by
  have hlength : firstPosition records node = records.length :=
    List.findIdx_eq_length.mpr (by simpa [firstRecord?] using h)
  refine List.findIdx_append.trans ?_
  -- The search goes through all records and stops at the new one.
  rw [if_neg (by rw [← firstPosition, hlength]; exact Nat.lt_irrefl _)]
  simp

/-! ## The entries of a memo -/

/-- The entries of a memo are the first records of their nodes, in the order in which these were
    made. -/
structure EntersFirst (memo : Memo) (records : List (Expr × Expr)) : Prop where
  mem_iff : ∀ entry, entry ∈ memo.entries ↔ firstRecord? records entry.1 = some entry
  ordered : memo.entries.Pairwise fun x y => firstPosition records x.1 < firstPosition records y.1

namespace EntersFirst

variable {memo : Memo}

/-- Without records there are no entries. -/
theorem empty : Memo.empty.EntersFirst [] where
  mem_iff := by simp [Memo.empty, firstRecord?]
  ordered := .nil

/-- The first record of a node is entered. -/
theorem mem_entries (h : memo.EntersFirst records) {first : Expr × Expr}
    (hfirst : firstRecord? records node = some first) : first ∈ memo.entries := by
  obtain ⟨-, hid⟩ := mem_of_firstRecord? hfirst
  rw [h.mem_iff, firstRecord?_congr hid]
  exact hfirst

/-- A look-up gives the replacement of the first record. -/
theorem lookup? (h : memo.EntersFirst records) (node : Expr) :
    memo.lookup? node = (firstRecord? records node).map (·.2) := by
  cases hfirst : firstRecord? records node with
  | some first =>
    obtain ⟨i, hget⟩ := List.mem_iff_getElem?.mp (h.mem_entries hfirst)
    exact lookup?_of_getElem? hget (mem_of_firstRecord? hfirst).2
  | none =>
    cases hlookup : memo.lookup? node with
    | none => rfl
    | some r =>
      -- What is found stands in an entry, which would be a first record of the node.
      obtain ⟨source, hmem, hid⟩ := mem_of_lookup? hlookup
      have hsome := (h.mem_iff _).mp hmem
      rw [firstRecord?_congr hid, hfirst] at hsome
      cases hsome

/-- Later records do not change the order of first records. -/
theorem ordered_append (h : memo.EntersFirst records) (later : List (Expr × Expr)) :
    memo.entries.Pairwise fun x y =>
      firstPosition (records ++ later) x.1 < firstPosition (records ++ later) y.1 := by
  refine h.ordered.imp_of_mem fun hx hy hlt => ?_
  rwa [firstPosition_append ((h.mem_iff _).mp hx), firstPosition_append ((h.mem_iff _).mp hy)]

/-- A record of a node that was recorded before changes nothing. -/
theorem concat_of_some (h : memo.EntersFirst records) {first : Expr × Expr}
    (hfirst : firstRecord? records node = some first) (replacement : Expr) :
    memo.EntersFirst (records ++ [(node, replacement)]) where
  mem_iff := by
    intro entry
    rw [h.mem_iff, firstRecord?_concat]
    -- Only the first record of the node itself could change, and it comes earlier.
    by_cases hid : node.id = entry.1.id
    · rw [← firstRecord?_congr hid, hfirst, Option.some_or]
    · rw [if_neg hid, Option.or_none]
  ordered := h.ordered_append _

/-- The first record of a node is entered behind all entries. -/
theorem concat_of_none (h : memo.EntersFirst records) (hfirst : firstRecord? records node = none)
    (replacement : Expr) {memo' : Memo}
    (hentries : memo'.entries = memo.entries ++ [(node, replacement)]) :
    memo'.EntersFirst (records ++ [(node, replacement)]) where
  mem_iff := by
    intro entry
    rw [hentries, List.mem_append, List.mem_singleton, h.mem_iff, firstRecord?_concat]
    by_cases hid : node.id = entry.1.id
    · -- The node has no entry yet, so its first record is the new one.
      rw [← firstRecord?_congr hid, hfirst, if_pos hid]
      simp [eq_comm]
    · have hne : entry ≠ (node, replacement) := fun heq => hid (by rw [heq])
      simp [hid, hne]
  ordered := by
    rw [hentries, List.pairwise_append]
    refine ⟨h.ordered_append _, List.pairwise_singleton _ _, ?_⟩
    intro x hx y hy
    have hx' := (h.mem_iff x).mp hx
    rw [List.mem_singleton.mp hy, firstPosition_append hx', firstPosition_concat_self hfirst]
    exact firstPosition_lt hx'

/-- One more record keeps the entries the first records. -/
theorem record (h : memo.EntersFirst records) (node replacement : Expr) :
    (memo.record node replacement).EntersFirst (records ++ [(node, replacement)]) := by
  -- Whether a node is found tells whether it was recorded.
  have hlookup := h.lookup? node
  cases hfirst : firstRecord? records node with
  | some first =>
    rw [hfirst, Option.map_some] at hlookup
    rw [record_of_lookup?_eq_some _ hlookup]
    exact h.concat_of_some hfirst replacement
  | none =>
    rw [hfirst, Option.map_none] at hlookup
    exact h.concat_of_none hfirst replacement (entries_record_of_lookup?_eq_none _ hlookup)

/-- There are as many entries as nodes that were recorded. -/
theorem size (h : memo.EntersFirst records) :
    memo.size = (records.map (·.1.id)).toFinset.card := by
  -- Entries for one node would have their first record at one position.
  have hnodup : (memo.entries.map (·.1.id)).Nodup := by
    refine List.pairwise_map.mpr (h.ordered.imp fun hlt hid => ?_)
    rw [firstPosition_congr hid] at hlt
    exact Nat.lt_irrefl _ hlt
  have hnodes : (memo.entries.map (·.1.id)).toFinset = (records.map (·.1.id)).toFinset := by
    ext id
    simp only [List.mem_toFinset, List.mem_map]
    constructor
    · rintro ⟨entry, hentry, rfl⟩
      exact ⟨entry, (mem_of_firstRecord? ((h.mem_iff entry).mp hentry)).1, rfl⟩
    · rintro ⟨record, hrecord, rfl⟩
      -- The node of the record is entered with its first record.
      obtain ⟨first, hfirst⟩ := exists_firstRecord? hrecord
      exact ⟨first, h.mem_entries hfirst, (mem_of_firstRecord? hfirst).2⟩
  rw [← hnodes, List.toFinset_card_of_nodup hnodup, List.length_map]
  rfl

end EntersFirst

/-- After any records, the entries are the first records. -/
theorem entersFirst_ofRecords (records : List (Expr × Expr)) :
    (ofRecords records).EntersFirst records := by
  -- Records are added at the end, so the induction is on the last one.
  induction records using List.reverseRecOn with
  | nil => exact .empty
  | append_singleton records record ih =>
    rw [ofRecords, List.foldl_append]
    exact ih.record record.1 record.2

/-- What a memo is after some records: its index and its entries agree, and it holds the first
    record of each node, in the order in which these were made. -/
structure Remembers (memo : Memo) (records : List (Expr × Expr)) : Prop where
  /-- A position in the index is that of an entry. -/
  inRange : ∀ id i, memo.index.lookup id = some i → i < memo.entries.length
  /-- The index has a position for a node exactly if the entry there is for that node. -/
  indexed : ∀ (node : Expr) i, memo.index.lookup node.id = some i ↔
    ∃ entry, memo.entries[i]? = some entry ∧ entry.1.SameNode node
  /-- A look-up gives what was recorded first for a node, and nothing for any other. -/
  lookup : ∀ node : Expr, memo.lookup? node =
    (records.find? fun (source, _) => source.SameNode node).map (·.2)
  /-- The size is the number of different nodes that were recorded. -/
  size : memo.size = (records.map (·.1.id)).toFinset.card
  /-- The entries are the first records of their nodes, in the order in which these were made. -/
  entries : memo.EntersFirst records

/-- Whatever is recorded, the first record of a node is the one that counts. -/
theorem ofRecords_remembers (records : List (Expr × Expr)) :
    (ofRecords records).Remembers records where
  inRange := fun _ _ => (ofRecords records).located.lt_length
  indexed := fun _ _ => position?_eq_some_iff
  lookup := (entersFirst_ofRecords records).lookup?
  size := (entersFirst_ofRecords records).size
  entries := entersFirst_ofRecords records

/-- Two nodes that look alike are told apart, may replace one another, and keep what they got
    first. -/
example :
    let a := Expr.constant 0 .null
    let b := Expr.constant 1 .null
    let memo := ofRecords [(b, a), (a, b), (b, b)]
    memo.entries = [(b, a), (a, b)] ∧ memo.lookup? a = some b ∧ memo.lookup? b = some a :=
  ⟨rfl, rfl, rfl⟩

end Memo

end Retarget
