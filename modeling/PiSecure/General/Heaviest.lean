import Mathlib.Algebra.BigOperators.Group.List.Basic
import Mathlib.Algebra.Order.Monoid.Canonical.Defs
import Mathlib.Data.List.Perm.Subperm

/-! # The heaviest items of a list

In a list in falling order of weight, no selection of so many items weighs more
than the first so many.
-/

namespace PiSecure

section Weight

variable {Item Weight : Type*} [AddCommMonoid Weight] (weight : Item → Weight)

/-- The weight of all items of a list. -/
def weightOf (items : List Item) : Weight := (items.map weight).sum

variable {weight}

@[simp] theorem weightOf_nil : weightOf weight ([] : List Item) = 0 := rfl

@[simp] theorem weightOf_cons (item : Item) (rest : List Item) :
    weightOf weight (item :: rest) = weight item + weightOf weight rest := by
  rw [weightOf, List.map_cons, List.sum_cons, weightOf]

theorem weightOf_perm {first second : List Item} (same : first.Perm second) :
    weightOf weight first = weightOf weight second :=
  (same.map weight).sum_eq

end Weight

section Heaviest

variable {Item Weight : Type*} [AddCommMonoid Weight] [Preorder Weight] [IsOrderedAddMonoid Weight]
  [CanonicallyOrderedAdd Weight] {weight : Item → Weight}

/-- A part of a list weighs at most as much as the list. -/
theorem weightOf_sublist {picked items : List Item} (part : picked.Sublist items) :
    weightOf weight picked ≤ weightOf weight items := by
  induction part with
  | slnil => exact le_rfl
  | @cons picked rest item part ih =>
      rw [weightOf_cons]
      exact le_add_of_nonneg_of_le zero_le ih
  | @cons_cons picked rest item part ih =>
      rw [weightOf_cons, weightOf_cons]
      exact add_le_add_right ih _

/-- Each item weighs at least as much as those after it. -/
def Falling (weight : Item → Weight) (items : List Item) : Prop :=
  items.Pairwise fun first second => weight second ≤ weight first

/-- The first items weigh at least as much as as many after the very first one. -/
theorem Falling.tail_take_le {first : Item} {rest : List Item}
    (falling : Falling weight (first :: rest))
    (count : ℕ) :
    weightOf weight (rest.take count) ≤ weightOf weight ((first :: rest).take count) := by
  induction rest generalizing first count with
  | nil =>
      rw [List.take_nil]
      exact zero_le
  | cons second others ih =>
      cases count with
      | zero => exact le_rfl
      | succ count =>
          obtain ⟨heavier, lower⟩ := List.pairwise_cons.mp falling
          rw [List.take_succ_cons, List.take_succ_cons, weightOf_cons, weightOf_cons]
          exact add_le_add (heavier second List.mem_cons_self) (ih lower count)

/-- No part of the list with so many items weighs more than the first so many. -/
theorem Falling.sublist_le {items picked : List Item} (falling : Falling weight items)
    (part : picked.Sublist items) {count : ℕ} (few : picked.length ≤ count) :
    weightOf weight picked ≤ weightOf weight (items.take count) := by
  induction part generalizing count with
  | slnil =>
      rw [weightOf_nil]
      exact zero_le
  | @cons picked rest item part ih =>
      exact le_trans (ih (List.pairwise_cons.mp falling).2 few) (falling.tail_take_le count)
  | @cons_cons picked rest item part ih =>
      cases count with
      | zero => exact absurd few (Nat.not_succ_le_zero _)
      | succ count =>
          rw [List.take_succ_cons, weightOf_cons, weightOf_cons]
          exact add_le_add_right (ih (List.pairwise_cons.mp falling).2 (Nat.le_of_succ_le_succ few))
            _

/-- The same for a selection in any order. -/
theorem Falling.subperm_le {items picked : List Item} (falling : Falling weight items)
    (part : picked.Subperm items) {count : ℕ} (few : picked.length ≤ count) :
    weightOf weight picked ≤ weightOf weight (items.take count) := by
  obtain ⟨ordered, same, part⟩ := part
  rw [← weightOf_perm same]
  exact falling.sublist_le part (same.length_eq.trans_le few)

end Heaviest

end PiSecure
