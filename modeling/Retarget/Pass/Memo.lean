import Retarget.Expr.Basic

/-!
# Memo of replaced nodes

A memo remembers which node replaces which. Nodes are told apart by identity, a node is recorded
at most once, and the entries stay in the order of recording. An index tells where the entry of a
node stands. That it agrees with the entries is part of what a memo is, so a look-up reads an entry
without checking the position that the index gives.

* `Memo.Locates.push`             the index and the entries grow in step
* `Memo.lookup?_eq_find?`         a look-up finds what a search among the entries finds
* `Memo.lookup?_record_self`      a recorded node is found
* `Memo.lookup?_record_of_ne`     recording a node changes nothing for others
-/

namespace Retarget

/-- Whether an index tells where entries stand: it has a position for an identity exactly if the
    entry at that position is for a node of that identity. -/
def Memo.Locates (index : List (Nat × Nat)) (entries : List (Expr × Expr)) : Prop :=
  ∀ id i, index.lookup id = some i ↔ ∃ entry, entries[i]? = some entry ∧ entry.1.id = id

/-- An entry for a node that has none yet is added to both, with its position in the index. -/
theorem Memo.Locates.push {index : List (Nat × Nat)} {entries : List (Expr × Expr)}
    (h : Locates index entries) {node : Expr} (replacement : Expr)
    (hnew : index.lookup node.id = none) :
    Locates ((node.id, entries.length) :: index) (entries ++ [(node, replacement)]) := by
  intro id i
  -- What stands at a position is an old entry, or the new one after all the old ones.
  have hget : ∀ entry, (entries ++ [(node, replacement)])[i]? = some entry ↔
      entries[i]? = some entry ∨ entry = (node, replacement) ∧ i = entries.length := by
    grind
  simp only [hget, or_and_right, exists_or, and_assoc, exists_eq_left, ← h id i]
  by_cases hid : id = node.id
  · simp [hid, hnew, eq_comm]
  · simp [List.lookup_cons, beq_false_of_ne hid, Ne.symm hid]

/-- What an index gives is the position of an entry. -/
theorem Memo.Locates.lt_length {index : List (Nat × Nat)} {entries : List (Expr × Expr)}
    (h : Locates index entries) {id i : Nat} (hi : index.lookup id = some i) :
    i < entries.length := by
  obtain ⟨entry, hget, -⟩ := (h id i).mp hi
  exact (List.getElem?_eq_some_iff.mp hget).1

/-- Nodes and their replacements. -/
structure Memo where
  /-- The nodes with their replacements, in the order of recording. -/
  entries : List (Expr × Expr)
  /-- The positions of the entries, by the identities of their nodes. -/
  index : List (Nat × Nat)
  located : Memo.Locates index entries

namespace Memo

/-- The memo that remembers nothing. -/
def empty : Memo := ⟨[], [], by simp [Locates]⟩

instance : Inhabited Memo := ⟨empty⟩

/-- The position of the entry of a node. -/
def position? (memo : Memo) (node : Expr) : Option Nat := memo.index.lookup node.id

/-- The index has a position for a node exactly if the entry there is for that node. -/
theorem position?_eq_some_iff {memo : Memo} {node : Expr} {i : Nat} :
    memo.position? node = some i ↔
      ∃ entry, memo.entries[i]? = some entry ∧ entry.1.SameNode node :=
  memo.located node.id i

/-- The replacement of a node. -/
def lookup? (memo : Memo) (node : Expr) : Option Expr :=
  match h : memo.position? node with
  | some i =>
    have := memo.located.lt_length h
    some memo.entries[i].2
  | none => none

/-- Records a replacement; a node that is already recorded keeps the one it has. -/
def record (memo : Memo) (node replacement : Expr) : Memo :=
  match h : memo.position? node with
  | some _ => memo
  | none =>
    ⟨memo.entries ++ [(node, replacement)], (node.id, memo.entries.length) :: memo.index,
      memo.located.push replacement h⟩

/-- The number of recorded nodes. -/
def size (memo : Memo) : Nat := memo.entries.length

/-- Whether nothing is recorded. -/
def isEmpty (memo : Memo) : Bool := memo.entries.isEmpty

/-- A node without a position has no entry. -/
theorem position?_eq_none_iff {memo : Memo} {node : Expr} :
    memo.position? node = none ↔ ∀ entry ∈ memo.entries, ¬entry.1.SameNode node := by
  simp only [Option.eq_none_iff_forall_ne_some, ne_eq, position?_eq_some_iff, not_exists, not_and,
    List.mem_iff_getElem?]
  grind

/-- A node without a replacement is one without a position. -/
theorem lookup?_eq_none_iff_position? {memo : Memo} {node : Expr} :
    memo.lookup? node = none ↔ memo.position? node = none := by
  unfold lookup?
  split <;> simp [*]

/-- A look-up reads the entry at the position of the node. -/
theorem lookup?_of_getElem? {memo : Memo} {node : Expr} {i : Nat} {entry : Expr × Expr}
    (hget : memo.entries[i]? = some entry) (hsame : entry.1.SameNode node) :
    memo.lookup? node = some entry.2 := by
  have hposition := position?_eq_some_iff.mpr ⟨entry, hget, hsame⟩
  unfold lookup?
  split
  · rename_i j h
    obtain rfl := Option.some.inj (hposition.symm.trans h)
    exact congrArg (fun found => some found.2) (List.getElem?_eq_some_iff.mp hget).2
  · rename_i h
    rw [hposition] at h
    cases h

/-- A look-up finds what a search among the entries finds. -/
theorem lookup?_eq_find? (memo : Memo) (node : Expr) :
    memo.lookup? node = (memo.entries.find? fun (source, _) => source.id = node.id).map (·.2) := by
  cases h : memo.entries.find? fun (source, _) => source.id = node.id with
  | none =>
    rw [Option.map_none, lookup?_eq_none_iff_position?, position?_eq_none_iff]
    simpa [Expr.SameNode] using h
  | some entry =>
    -- The index has one position for each node, so the first entry for it is the only one.
    obtain ⟨hsame, i, hi, hget, -⟩ := List.find?_eq_some_iff_getElem.mp h
    exact lookup?_of_getElem? (List.getElem?_eq_some_iff.mpr ⟨hi, hget⟩) (of_decide_eq_true hsame)

/-- At the start nothing is found. -/
@[simp] theorem lookup?_empty (node : Expr) : empty.lookup? node = none := rfl

/-- Recording a node that is there changes nothing. -/
theorem record_of_lookup?_eq_some {memo : Memo} {node r : Expr} (replacement : Expr)
    (h : memo.lookup? node = some r) : memo.record node replacement = memo := by
  unfold record
  split
  · rfl
  · rename_i hnone
    rw [lookup?_eq_none_iff_position?.mpr hnone] at h
    cases h

/-- What recording does to a node that is not there yet. -/
theorem entries_record_of_lookup?_eq_none {memo : Memo} {node : Expr} (replacement : Expr)
    (h : memo.lookup? node = none) :
    (memo.record node replacement).entries = memo.entries ++ [(node, replacement)] := by
  unfold record
  split
  · rename_i i hsome
    rw [lookup?_eq_none_iff_position?.mp h] at hsome
    cases hsome
  · rfl

/-- A node that has just been recorded is found, with its first replacement. -/
theorem lookup?_record_self (memo : Memo) (node replacement : Expr) :
    (memo.record node replacement).lookup? node =
      some ((memo.lookup? node).getD replacement) := by
  cases h : memo.lookup? node with
  | some r => rw [record_of_lookup?_eq_some _ h, h, Option.getD_some]
  | none =>
    rw [lookup?_eq_find?, entries_record_of_lookup?_eq_none _ h]
    rw [lookup?_eq_find?, Option.map_eq_none_iff] at h
    simp [List.find?_append, h]

/-- Recording a node changes nothing for another one. -/
theorem lookup?_record_of_ne (memo : Memo) {node other : Expr} (replacement : Expr)
    (hne : node.id ≠ other.id) :
    (memo.record node replacement).lookup? other = memo.lookup? other := by
  cases h : memo.lookup? node with
  | some r => rw [record_of_lookup?_eq_some _ h]
  | none =>
    rw [lookup?_eq_find?, entries_record_of_lookup?_eq_none _ h, lookup?_eq_find?]
    simp [List.find?_append, hne]

/-- What is found was recorded for a node of the same identity. -/
theorem mem_of_lookup? {memo : Memo} {node replacement : Expr}
    (h : memo.lookup? node = some replacement) :
    ∃ source, (source, replacement) ∈ memo.entries ∧ source.id = node.id := by
  rw [lookup?_eq_find?] at h
  obtain ⟨⟨source, r⟩, hfind, rfl⟩ := Option.map_eq_some_iff.mp h
  exact ⟨source, List.mem_of_find?_eq_some hfind, by simpa using List.find?_some hfind⟩

end Memo

end Retarget
