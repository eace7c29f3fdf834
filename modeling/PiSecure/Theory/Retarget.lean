import PiSecure.General.NearestLog
import PiSecure.Model.Retarget

/-! # The retarget law

The retarget of the node is the same computation in unbounded numbers: the work
of the clamped bits, scaled by the target over the clamped span, and back to
bits by the nearest binary logarithm.
-/

namespace PiSecure

/-- A number moved into a range. -/
def clampTo (low high value : ℕ) : ℕ := min (max low value) high

theorem clampTo_mono {low high left right : ℕ} (ordered : left ≤ right) :
    clampTo low high left ≤ clampTo low high right :=
  min_le_min_right high (max_le_max_left low ordered)

theorem le_clampTo {low high : ℕ} (range : low ≤ high) (value : ℕ) : low ≤ clampTo low high value :=
  le_min (le_max_left low value) range

theorem clampTo_le (low high value : ℕ) : clampTo low high value ≤ high :=
  min_le_right _ high

theorem clampTo_of_mem {low high value : ℕ} (above : low ≤ value) (below : value ≤ high) :
    clampTo low high value = value := by
  rw [clampTo, max_eq_right above, min_eq_left below]

/-- A clamp moves a number towards every number of its range. -/
theorem clampTo_near {low high step value center : ℕ} (above : low ≤ center)
    (below : center ≤ high) (lower : center ≤ value + step) (upper : value ≤ center + step) :
    center ≤ clampTo low high value + step ∧ clampTo low high value ≤ center + step := by
  unfold clampTo
  omega

/-- The span of ten timestamps, at most four times off the target. -/
def retargetSpan (elapsed : ℕ) : ℕ := clampTo (540 / 4) (540 * 4) elapsed

/-- The work for the next block, at most four times off the work of these bits. -/
def retargetWork (bits elapsed : ℕ) : ℕ :=
  clampTo (2 ^ bits / 4) (2 ^ bits * 4) (2 ^ bits * 540 / retargetSpan elapsed)

/-- The retarget in unbounded numbers. -/
def retargetBits (bits : ℕ) (elapsed : ℤ) : ℕ :=
  let bits := clampTo 2 24 bits
  if elapsed ≤ 0 then bits else clampTo 2 24 (nearestLog (retargetWork bits elapsed.toNat))

/-! ## The law in unbounded numbers -/

theorem retargetSpan_pos (elapsed : ℕ) : 0 < retargetSpan elapsed :=
  lt_of_lt_of_le (by decide) (le_clampTo (by decide) elapsed)

/-- Work is between two powers of two, two bits off. -/
theorem retargetWork_between {bits : ℕ} (enough : 2 ≤ bits) (elapsed : ℕ) :
    2 ^ (bits - 2) ≤ retargetWork bits elapsed ∧ retargetWork bits elapsed ≤ 2 ^ (bits + 2) := by
  have quarter : 2 ^ bits / 4 = 2 ^ (bits - 2) := Nat.pow_div enough two_pos
  have fourfold : 2 ^ bits * 4 = 2 ^ (bits + 2) := (pow_add 2 bits 2).symm
  have range : 2 ^ (bits - 2) ≤ 2 ^ (bits + 2) := Nat.pow_le_pow_right two_pos (by omega)
  unfold retargetWork
  rw [quarter, fourfold]
  exact ⟨le_clampTo range _, clampTo_le _ _ _⟩

theorem retargetWork_anti (bits : ℕ) {early late : ℕ} (ordered : early ≤ late) :
    retargetWork bits late ≤ retargetWork bits early :=
  clampTo_mono (Nat.div_le_div_left (clampTo_mono ordered) (retargetSpan_pos early))

theorem retargetWork_target {bits : ℕ} : retargetWork bits 540 = 2 ^ bits := by
  have whole : 2 ^ bits * 540 / retargetSpan 540 = 2 ^ bits := Nat.mul_div_left _ (by decide)
  rw [retargetWork, whole]
  exact clampTo_of_mem (Nat.div_le_self _ _) (Nat.le_mul_of_pos_right _ (by decide))

theorem retargetBits_mem (bits : ℕ) (elapsed : ℤ) :
    2 ≤ retargetBits bits elapsed ∧ retargetBits bits elapsed ≤ 24 := by
  unfold retargetBits
  simp only
  split <;> exact ⟨le_clampTo (by decide) _, clampTo_le _ _ _⟩

/-- One retarget moves by at most two bits. -/
theorem retargetBits_near (bits : ℕ) (elapsed : ℤ) :
    clampTo 2 24 bits ≤ retargetBits bits elapsed + 2 ∧
      retargetBits bits elapsed ≤ clampTo 2 24 bits + 2 := by
  have above : 2 ≤ clampTo 2 24 bits := le_clampTo (by decide) bits
  have below : clampTo 2 24 bits ≤ 24 := clampTo_le 2 24 bits
  unfold retargetBits
  simp only
  split
  · omega
  · obtain ⟨lower, upper⟩ := retargetWork_between above elapsed.toNat
    obtain ⟨least, most⟩ := nearestLog_between lower upper
    exact clampTo_near above below (by omega) most

theorem retargetBits_target (bits : ℕ) : retargetBits bits 540 = clampTo 2 24 bits := by
  have kept : clampTo 2 24 (clampTo 2 24 bits) = clampTo 2 24 bits :=
    clampTo_of_mem (le_clampTo (by decide) bits) (clampTo_le 2 24 bits)
  rw [retargetBits, if_neg (by decide)]
  change clampTo 2 24 (nearestLog (retargetWork _ 540)) = _
  rw [retargetWork_target, nearestLog_two_pow, kept]

theorem retargetBits_of_nonpositive (bits : ℕ) {elapsed : ℤ} (stopped : elapsed ≤ 0) :
    retargetBits bits elapsed = clampTo 2 24 bits :=
  if_pos stopped

/-- A longer span never asks for more bits. -/
theorem retargetBits_anti (bits : ℕ) {early late : ℤ} (started : 0 < early)
    (ordered : early ≤ late) : retargetBits bits late ≤ retargetBits bits early := by
  have above : 2 ≤ clampTo 2 24 bits := le_clampTo (by decide) bits
  obtain ⟨lower, _⟩ := retargetWork_between above late.toNat
  have positive : retargetWork (clampTo 2 24 bits) late.toNat ≠ 0 :=
    Nat.ne_of_gt (lt_of_lt_of_le (Nat.two_pow_pos _) lower)
  rw [retargetBits, retargetBits, if_neg (by omega), if_neg (by omega)]
  exact clampTo_mono (nearestLog_mono positive (retargetWork_anti _ (Int.toNat_le_toNat ordered)))

/-! ## The machine words hold the law -/

theorem toNat_clampBits (bits : UInt32) : (clampBits bits).toNat = clampTo 2 24 bits.toNat := by
  unfold clampBits clampTo
  simp only [retargetMinBits, retargetMaxBits, gt_iff_lt, UInt32.lt_iff_toNat_lt]
  change UInt32.toNat (if 24 < (if bits.toNat < 2 then (2 : UInt32) else bits).toNat then 24
    else if bits.toNat < 2 then 2 else bits) = _
  by_cases low : bits.toNat < 2
  · rw [if_pos low, if_neg (by decide)]
    change 2 = _
    omega
  · rw [if_neg low]
    split
    · change 24 = _
      omega
    · omega

theorem toNat_clamp64 (low high value : UInt64) :
    (clamp64 low high value).toNat = clampTo low.toNat high.toNat value.toNat := by
  unfold clamp64 clampTo
  simp only [gt_iff_lt, UInt64.lt_iff_toNat_lt]
  split <;> split <;> omega

/-- The loop counts the halvings down to one. -/
theorem toNat_shiftLoop (shifted : UInt64) (floor : UInt32)
    (room : floor.toNat + Nat.log 2 shifted.toNat < 2 ^ 32) :
    (shiftLoop shifted floor).toNat = floor.toNat + Nat.log 2 shifted.toNat := by
  induction shifted, floor using shiftLoop.induct with
  | case1 shifted floor more ih =>
      have above : 1 < shifted.toNat := UInt64.lt_iff_toNat_lt.mp more
      have halved : (shifted >>> 1).toNat = shifted.toNat / 2 := by
        rw [UInt64.toNat_shiftRight]
        exact Nat.shiftRight_one _
      have step : Nat.log 2 shifted.toNat = Nat.log 2 (shifted.toNat / 2) + 1 :=
        Nat.log_of_one_lt_of_le one_lt_two above
      have next : (floor + 1).toNat = floor.toNat + 1 := by
        rw [UInt32.toNat_add]
        exact Nat.mod_eq_of_lt (by change floor.toNat + 1 < _; omega)
      rw [shiftLoop, if_pos more, ih (by rw [halved, next]; omega), halved, next, step]
      omega
  | case2 shifted floor stopped =>
      have small : shifted.toNat ≤ 1 := Nat.not_lt.mp fun more =>
        stopped (UInt64.lt_iff_toNat_lt.mpr more)
      rw [shiftLoop, if_neg stopped, Nat.log_of_lt (by omega), Nat.add_zero]

/-- No operation of `round_log2` leaves its type: the count of the loop is below
the width of the shift, and both squares are below the 128 bits. -/
structure RoundExact (value : UInt64) : Prop where
  count : (shiftLoop value 0).toUInt64.toNat < 64
  base : ((1 : UInt64) <<< (shiftLoop value 0).toUInt64).toNat = 2 ^ (shiftLoop value 0).toNat
  squared : value.toNat * value.toNat < 2 ^ 128
  half : 2 ^ (shiftLoop value 0).toNat * 2 ^ (shiftLoop value 0).toNat * 2 < 2 ^ 128
  next : (shiftLoop value 0 + 1).toNat = (shiftLoop value 0).toNat + 1

/-- A power of two below the width of a word is shifted into place. -/
theorem toNat_one_shiftLeft {count : UInt64} (fits : count.toNat < 64) :
    ((1 : UInt64) <<< count).toNat = 2 ^ count.toNat := by
  rw [UInt64.toNat_shiftLeft, Nat.mod_eq_of_lt fits]
  change 1 <<< count.toNat % _ = _
  rw [Nat.shiftLeft_eq, one_mul]
  exact Nat.mod_eq_of_lt (Nat.pow_lt_pow_right one_lt_two fits)

theorem log_lt_width (value : UInt64) : Nat.log 2 value.toNat < 64 := by
  by_cases zero : value.toNat = 0
  · rw [zero]
    decide
  · exact Nat.log_lt_of_lt_pow zero value.toNat_lt

theorem toNat_shiftLoop_zero (value : UInt64) :
    (shiftLoop value 0).toNat = Nat.log 2 value.toNat := by
  have width := log_lt_width value
  rw [toNat_shiftLoop value 0 (by change 0 + _ < _; omega)]
  exact Nat.zero_add _

theorem roundExact (value : UInt64) : RoundExact value := by
  have width := log_lt_width value
  have count := toNat_shiftLoop_zero value
  have fits : (shiftLoop value 0).toUInt64.toNat < 64 := by
    rw [UInt32.toNat_toUInt64]
    omega
  have power : 2 ^ (shiftLoop value 0).toNat ≤ 2 ^ 63 :=
    Nat.pow_le_pow_right two_pos (by omega)
  have squared : value.toNat * value.toNat < 2 ^ 64 * 2 ^ 64 :=
    Nat.mul_lt_mul_of_lt_of_lt value.toNat_lt value.toNat_lt
  refine ⟨fits, ?_, by omega, ?_, ?_⟩
  · rw [toNat_one_shiftLeft fits, UInt32.toNat_toUInt64]
  · have square := Nat.mul_le_mul power power
    omega
  · rw [UInt32.toNat_add]
    exact Nat.mod_eq_of_lt (by change (shiftLoop value 0).toNat + 1 < _; omega)

theorem toNat_roundLog2 (value : UInt64) : (roundLog2 value).toNat = nearestLog value.toNat := by
  have machine := roundExact value
  have count := toNat_shiftLoop_zero value
  unfold roundLog2 nearestLog
  by_cases small : value ≤ 1
  · have bound : value.toNat ≤ 1 := UInt64.le_iff_toNat_le.mp small
    have floor : Nat.log 2 value.toNat = 0 := Nat.log_of_lt (by omega)
    have square := Nat.mul_le_mul bound bound
    rw [if_pos small, floor, if_neg (by omega)]
    rfl
  · simp only [if_neg small, machine.base, ge_iff_le]
    rw [count]
    split
    · rw [machine.next, count]
    · exact count

/-- The loop goes on for exactly the count that it returns. -/
theorem shiftLoop_count (value : UInt64) (count : ℕ) :
    1 < value.toNat / 2 ^ count ↔ count < (shiftLoop value 0).toNat := by
  change 2 ≤ _ ↔ _
  rw [toNat_shiftLoop_zero, Nat.le_div_iff_mul_le (Nat.two_pow_pos count), ← Nat.pow_succ']
  by_cases zero : value.toNat = 0
  · rw [zero, Nat.log_zero_right]
    have power := Nat.two_pow_pos (count + 1)
    omega
  · exact (Nat.le_log_iff_pow_le one_lt_two zero).symm

/-- **Rounding.** The square of every number lies within half a step of the power of its
rounded logarithm, the loop ends, and no product leaves its 128 bits. -/
theorem roundLog2_nearest (value : UInt64) :
    value.toNat * value.toNat < 2 ^ (2 * (roundLog2 value).toNat + 1) ∧
      (1 ≤ (roundLog2 value).toNat →
        2 ^ (2 * (roundLog2 value).toNat - 1) ≤ value.toNat * value.toNat) ∧
      (∀ count, 1 < value.toNat / 2 ^ count ↔ count < (shiftLoop value 0).toNat) ∧
      RoundExact value := by
  have doubled : ∀ power : ℕ, 2 ^ power * 2 ^ power = 2 ^ (2 * power) := by
    intro power
    rw [← Nat.pow_add, Nat.two_mul]
  refine ⟨?_, ?_, shiftLoop_count value, roundExact value⟩
  · by_cases zero : value.toNat = 0
    · rw [zero]
      exact Nat.two_pow_pos _
    · have past := (not_congr (le_nearestLog zero)).mp
        (Nat.not_succ_le_self (nearestLog value.toNat))
      rw [doubled, ← toNat_roundLog2, show 2 * ((roundLog2 value).toNat + 1) =
        2 * (roundLog2 value).toNat + 1 + 1 by omega, Nat.pow_succ] at past
      omega
  · intro positive
    have present : value.toNat ≠ 0 := by
      intro zero
      rw [toNat_roundLog2, zero] at positive
      exact absurd positive (by decide)
    have reached := (le_nearestLog present).mp (le_refl (nearestLog value.toNat))
    rw [doubled, ← toNat_roundLog2, show 2 * (roundLog2 value).toNat =
      2 * (roundLog2 value).toNat - 1 + 1 by omega, Nat.pow_succ] at reached
    omega

/-- The span `retarget_difficulty_bits` divides by. -/
def spanOf (elapsed : Int64) : UInt64 :=
  clamp64 (retargetTargetSeconds / 4) (retargetTargetSeconds * 4) elapsed.toUInt64

/-- The work of the bits of the tip. -/
def workOf (bits : UInt32) : UInt64 := (1 : UInt64) <<< (clampBits bits).toUInt64

/-- No operation of `retarget_difficulty_bits` leaves its type, and it never
divides by zero. -/
structure RetargetExact (bits : UInt32) (elapsed : Int64) : Prop where
  count : (clampBits bits).toUInt64.toNat < 64
  work : (workOf bits).toNat = 2 ^ (clampBits bits).toNat
  longest : (retargetTargetSeconds * 4).toNat = retargetTargetSeconds.toNat * 4
  product : (workOf bits * retargetTargetSeconds).toNat =
    (workOf bits).toNat * retargetTargetSeconds.toNat
  divisor : spanOf elapsed ≠ 0
  fourfold : (workOf bits * 4).toNat = (workOf bits).toNat * 4

theorem retargetExact (bits : UInt32) (elapsed : Int64) : RetargetExact bits elapsed := by
  have clamped : (clampBits bits).toNat ≤ 24 := by
    rw [toNat_clampBits]
    exact clampTo_le 2 24 _
  have fits : (clampBits bits).toUInt64.toNat < 64 := by
    rw [UInt32.toNat_toUInt64]
    omega
  have work : (workOf bits).toNat = 2 ^ (clampBits bits).toNat := by
    rw [workOf, toNat_one_shiftLeft fits, UInt32.toNat_toUInt64]
  have small : (workOf bits).toNat ≤ 2 ^ 24 := by
    rw [work]
    exact Nat.pow_le_pow_right two_pos clamped
  refine ⟨fits, work, rfl, ?_, ?_, ?_⟩
  · rw [UInt64.toNat_mul]
    exact Nat.mod_eq_of_lt (by change _ * 540 < _; omega)
  · intro zero
    have span : (spanOf elapsed).toNat = retargetSpan elapsed.toUInt64.toNat :=
      toNat_clamp64 _ _ _
    have positive := retargetSpan_pos elapsed.toUInt64.toNat
    rw [← span, zero] at positive
    exact absurd positive (by decide)
  · rw [UInt64.toNat_mul]
    exact Nat.mod_eq_of_lt (by change _ * 4 < _; omega)

/-- The retarget of the node is the retarget in unbounded numbers. -/
theorem toNat_retargetDifficultyBits (bits : UInt32) (elapsed : Int64) :
    (retargetDifficultyBits bits elapsed).toNat = retargetBits bits.toNat elapsed.toInt := by
  have machine := retargetExact bits elapsed
  unfold retargetDifficultyBits retargetBits
  simp only [Int64.le_iff_toInt_le, ← toNat_clampBits]
  change UInt32.toNat (if elapsed.toInt ≤ 0 then _ else _) = _
  by_cases stopped : elapsed.toInt ≤ 0
  · rw [if_pos stopped, if_pos stopped]
  · have span : (spanOf elapsed).toNat = retargetSpan elapsed.toInt.toNat := by
      have started : 0 ≤ elapsed := Int64.le_iff_toInt_le.mpr (by change 0 ≤ elapsed.toInt; omega)
      rw [Int64.toNat_toInt, ← Int64.toNat_toUInt64_of_le started]
      exact toNat_clamp64 _ _ _
    have next : (clamp64 (workOf bits / 4) (workOf bits * 4)
        (workOf bits * retargetTargetSeconds / spanOf elapsed)).toNat =
        retargetWork (clampBits bits).toNat elapsed.toInt.toNat := by
      rw [toNat_clamp64, UInt64.toNat_div, UInt64.toNat_div, machine.product, machine.fourfold,
        span, machine.work]
      rfl
    have above : 2 ≤ (clampBits bits).toNat := by
      rw [toNat_clampBits]
      exact le_clampTo (by decide) _
    have positive := (Nat.two_pow_pos _).trans_le (retargetWork_between above elapsed.toInt.toNat).1
    have worth : ¬clamp64 (workOf bits / 4) (workOf bits * 4)
        (workOf bits * retargetTargetSeconds / spanOf elapsed) < 1 := by
      rw [UInt64.lt_iff_toNat_lt, next]
      change ¬_ < 1
      omega
    rw [if_neg stopped, if_neg stopped, toNat_clampBits, toNat_roundLog2]
    change clampTo 2 24 (nearestLog (UInt64.toNat (if clamp64 (workOf bits / 4) (workOf bits * 4)
      (workOf bits * retargetTargetSeconds / spanOf elapsed) < 1 then 1 else _))) = _
    rw [if_neg worth]
    exact congrArg (fun work => clampTo 2 24 (nearestLog work)) next

/-- The retarget stays in its band, moves by at most two bits, keeps the bits on
target or without a span, never rises with the span, and every operation of it
is exact. -/
theorem retarget_law (bits : UInt32) :
    (∀ elapsed : Int64,
      (2 ≤ (retargetDifficultyBits bits elapsed).toNat ∧
        (retargetDifficultyBits bits elapsed).toNat ≤ 24) ∧
      clampTo 2 24 bits.toNat ≤ (retargetDifficultyBits bits elapsed).toNat + 2 ∧
      (retargetDifficultyBits bits elapsed).toNat ≤ clampTo 2 24 bits.toNat + 2) ∧
    (∀ elapsed : Int64, elapsed = 540 ∨ elapsed ≤ 0 →
      (retargetDifficultyBits bits elapsed).toNat = clampTo 2 24 bits.toNat) ∧
    (∀ early late : Int64, 0 < early → early ≤ late →
      retargetDifficultyBits bits late ≤ retargetDifficultyBits bits early) ∧
    (∀ elapsed : Int64, RetargetExact bits elapsed) ∧ ∀ value : UInt64, RoundExact value := by
  refine ⟨fun elapsed => ?_, fun elapsed kept => ?_, fun early late started ordered => ?_,
    retargetExact bits, roundExact⟩
  · rw [toNat_retargetDifficultyBits]
    exact ⟨retargetBits_mem _ _, retargetBits_near _ _⟩
  · rw [toNat_retargetDifficultyBits]
    rcases kept with rfl | stopped
    · exact retargetBits_target _
    · exact retargetBits_of_nonpositive _ (Int64.le_iff_toInt_le.mp stopped)
  · rw [UInt32.le_iff_toNat_le, toNat_retargetDifficultyBits, toNat_retargetDifficultyBits]
    exact retargetBits_anti _ (Int64.lt_iff_toInt_lt.mp started) (Int64.le_iff_toInt_le.mp ordered)

end PiSecure
