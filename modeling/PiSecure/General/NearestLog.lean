import Mathlib.Data.Nat.Log
import Mathlib.Tactic.Ring
import Mathlib.Tactic.Linarith

/-! # The nearest binary logarithm

The integer nearest to the binary logarithm of a number, by an adjunction: it
reaches `power` exactly when the square of `2 ^ power` is at most twice the
square of the number.
-/

namespace PiSecure

/-- The integer nearest to the binary logarithm. -/
def nearestLog (number : ℕ) : ℕ :=
  if 2 ^ Nat.log 2 number * 2 ^ Nat.log 2 number * 2 ≤ number * number then
    Nat.log 2 number + 1
  else Nat.log 2 number

/-- The number is at least the power of two half a step below the logarithm. -/
theorem le_nearestLog {power number : ℕ} (positive : number ≠ 0) :
    power ≤ nearestLog number ↔ 2 ^ power * 2 ^ power ≤ 2 * (number * number) := by
  have below : 2 ^ Nat.log 2 number ≤ number := Nat.pow_log_le_self 2 positive
  have above : number < 2 ^ (Nat.log 2 number + 1) := Nat.lt_pow_succ_log_self one_lt_two number
  have powers {low high : ℕ} (ordered : low ≤ high) :
      2 ^ low * 2 ^ low ≤ 2 ^ high * 2 ^ high :=
    Nat.mul_le_mul (Nat.pow_le_pow_right two_pos ordered) (Nat.pow_le_pow_right two_pos ordered)
  have squareBelow := Nat.mul_le_mul below below
  have squareAbove := Nat.mul_lt_mul_of_lt_of_lt above above
  unfold nearestLog
  split
  next upper =>
    constructor
    · intro reached
      calc 2 ^ power * 2 ^ power
          ≤ 2 ^ (Nat.log 2 number + 1) * 2 ^ (Nat.log 2 number + 1) := powers reached
        _ = 2 * (2 ^ Nat.log 2 number * 2 ^ Nat.log 2 number * 2) := by ring
        _ ≤ 2 * (number * number) := Nat.mul_le_mul_left 2 upper
    · intro small
      by_contra past
      have far := powers (Nat.lt_of_not_le past)
      rw [pow_succ] at far
      linarith only [far, small, squareAbove,
        Nat.zero_le (2 ^ (Nat.log 2 number + 1) * 2 ^ (Nat.log 2 number + 1))]
  next lower =>
    constructor
    · intro reached
      have near := powers reached
      linarith only [near, squareBelow, Nat.zero_le (number * number)]
    · intro small
      by_contra past
      have far := powers (Nat.lt_of_not_le past)
      rw [Nat.succ_eq_add_one, pow_succ] at far
      linarith only [far, small, lower]

theorem nearestLog_mono {low high : ℕ} (positive : low ≠ 0) (ordered : low ≤ high) :
    nearestLog low ≤ nearestLog high := by
  have raised : high ≠ 0 := Nat.ne_of_gt (lt_of_lt_of_le (Nat.pos_of_ne_zero positive) ordered)
  have reached := (le_nearestLog positive).mp (le_refl (nearestLog low))
  exact (le_nearestLog raised).mpr
    (reached.trans (Nat.mul_le_mul_left 2 (Nat.mul_le_mul ordered ordered)))

@[simp] theorem nearestLog_two_pow (power : ℕ) : nearestLog (2 ^ power) = power := by
  have square : 0 < 2 ^ power * 2 ^ power := Nat.mul_pos (Nat.two_pow_pos _) (Nat.two_pow_pos _)
  unfold nearestLog
  rw [Nat.log_pow one_lt_two]
  exact if_neg (by omega)

/-- Between two powers of two the logarithm is between their exponents. -/
theorem nearestLog_between {low high number : ℕ} (above : 2 ^ low ≤ number)
    (below : number ≤ 2 ^ high) : low ≤ nearestLog number ∧ nearestLog number ≤ high := by
  have positive : number ≠ 0 := Nat.ne_of_gt (lt_of_lt_of_le (Nat.two_pow_pos low) above)
  constructor
  · calc low = nearestLog (2 ^ low) := (nearestLog_two_pow low).symm
      _ ≤ nearestLog number := nearestLog_mono (Nat.two_pow_pos low).ne' above
  · calc nearestLog number ≤ nearestLog (2 ^ high) := nearestLog_mono positive below
      _ = high := nearestLog_two_pow high

end PiSecure
