import Mathlib.Data.List.Forall2
import Mathlib.Logic.Relation

/-!
# Lists and options related place by place

General facts on `List.Forall₂` and `Option.Rel`, by which the proofs relate the parts of two nodes:
what stands at a place of one side, or is a member of it, has a partner on the other.

## Key results

- `List.Forall₂.getElem?`: related lists are related at every place
- `List.Forall₂.exists_of_mem_right`: a member of the right list has a partner in the left one
- `List.Forall₂.comp`: relations of lists that follow each other
-/

namespace Option

variable {α β : Type} {R : α → β → Prop}

/-- What stands on the left has a partner on the right. -/
theorem exists_of_some_rel {x : α} {o : Option β} (h : Option.Rel R (some x) o) :
    ∃ y, o = some y ∧ R x y := by
  cases h with
  | some h => exact ⟨_, rfl, h⟩

/-- What stands on the right has a partner on the left. -/
theorem exists_of_rel_some {o : Option α} {y : β} (h : Option.Rel R o (some y)) :
    ∃ x, o = some x ∧ R x y := by
  cases h with
  | some h => exact ⟨_, rfl, h⟩

end Option

namespace List

variable {α β γ : Type} {R : α → β → Prop} {xs : List α} {ys : List β}

/-- Related lists have related elements at every place, or end before it together. -/
theorem Forall₂.getElem? (h : Forall₂ R xs ys) (i : Nat) : Option.Rel R xs[i]? ys[i]? := by
  induction h generalizing i with
  | nil => exact .none
  | cons h _ ih =>
    cases i with
    | zero => simpa using Option.Rel.some h
    | succ i => simpa using ih i

/-- The element at a place of the left list has a partner at the same place of the right one. -/
theorem Forall₂.exists_of_getElem? {i : Nat} {x : α} (h : Forall₂ R xs ys)
    (hx : xs[i]? = some x) : ∃ y, ys[i]? = some y ∧ R x y :=
  Option.exists_of_some_rel (hx ▸ h.getElem? i)

/-- A member of the right list has a partner in the left one. -/
theorem Forall₂.exists_of_mem_right {y : β} (h : Forall₂ R xs ys) (hy : y ∈ ys) :
    ∃ x ∈ xs, R x y := by
  obtain ⟨i, hi⟩ := mem_iff_getElem?.mp hy
  obtain ⟨x, hx, hxy⟩ := Option.exists_of_rel_some (hi ▸ h.getElem? i)
  exact ⟨x, mem_of_getElem? hx, hxy⟩

/-- Lists that are related in parts of the same length are related part by part. -/
theorem Forall₂.of_append {xs' : List α} {ys' : List β} (hlen : ys.length = xs.length)
    (h : Forall₂ R (xs ++ xs') (ys ++ ys')) : Forall₂ R xs ys ∧ Forall₂ R xs' ys' := by
  -- Both lists are cut behind as many elements.
  have hleft := forall₂_take xs.length h
  have hright := forall₂_drop xs.length h
  rw [take_left, ← hlen, take_left] at hleft
  rw [drop_left, ← hlen, drop_left] at hright
  exact ⟨hleft, hright⟩

/-- A list that is related to a second, which is related to a third, is related to the third by way
    of the second. -/
theorem Forall₂.comp {S : β → γ → Prop} {zs : List γ} (h : Forall₂ R xs ys)
    (h' : Forall₂ S ys zs) : Forall₂ (Relation.Comp R S) xs zs := by
  induction h generalizing zs with
  | nil =>
    cases h'
    exact .nil
  | cons h _ ih =>
    cases h' with
    | cons h' hs' => exact .cons ⟨_, h, h'⟩ (ih hs')

end List
