import Mathlib.Algebra.Ring.Nat
import Mathlib.Algebra.BigOperators.Group.List.Basic

/-! # Sums of 64-bit words

A sum that is accumulated in a word is the exact sum modulo the size of a word:
at most the exact sum, and equal to it when the exact sum fits.
-/

namespace PiSecure

variable {Item : Type} (amount : Item → UInt64)

/-- The sum accumulated in a word is the exact sum modulo the size of a word. -/
theorem toNat_foldl_add_mod (items : List Item) (start : UInt64) :
    (items.foldl (fun total item => total + amount item) start).toNat =
      (start.toNat + (items.map fun item => (amount item).toNat).sum) % 2 ^ 64 := by
  induction items generalizing start with
  | nil => exact (Nat.mod_eq_of_lt start.toNat_lt).symm
  | cons first rest ih =>
      rw [List.foldl_cons, List.map_cons, List.sum_cons, ih, UInt64.toNat_add, Nat.mod_add_mod,
        Nat.add_assoc]

theorem toNat_foldl_add_le (items : List Item) (start : UInt64) :
    (items.foldl (fun total item => total + amount item) start).toNat ≤
      start.toNat + (items.map fun item => (amount item).toNat).sum := by
  rw [toNat_foldl_add_mod]
  exact Nat.mod_le _ _

end PiSecure
