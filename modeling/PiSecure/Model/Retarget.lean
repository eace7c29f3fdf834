import Mathlib.Data.Int.Order.Basic

/-! # Difficulty retargeting

`retarget.hpp`: leading-zero bits from the span of the last ten timestamps.
-/

namespace PiSecure

def retargetMinBits : UInt32 := 2
def retargetMaxBits : UInt32 := 24
def retargetTargetSeconds : UInt64 := 540

/-- The shift loop of `round_log2`: how often a number above one is halved. -/
def shiftLoop (shifted : UInt64) (floor : UInt32) : UInt32 :=
  if 1 < shifted then shiftLoop (shifted >>> 1) (floor + 1) else floor
termination_by shifted.toNat
decreasing_by
  have above : 1 < shifted.toNat := UInt64.lt_iff_toNat_lt.mp ‹1 < shifted›
  rw [UInt64.toNat_shiftRight]
  change shifted.toNat >>> 1 < shifted.toNat
  rw [Nat.shiftRight_succ, Nat.shiftRight_zero]
  omega

/-- `round_log2`: the nearest integer to the binary logarithm. -/
def roundLog2 (value : UInt64) : UInt32 :=
  if value ≤ 1 then 0
  else
    let floor := shiftLoop value 0
    let base := (1 : UInt64) <<< floor.toUInt64
    -- The products are 128 bits wide in the source.
    if value.toNat * value.toNat ≥ base.toNat * base.toNat * 2 then floor + 1 else floor

/-- A number moved into a range. -/
def clamp64 (low high value : UInt64) : UInt64 :=
  let raised := if value < low then low else value
  if raised > high then high else raised

/-- Bits moved into the retarget band. -/
def clampBits (bits : UInt32) : UInt32 :=
  let raised := if bits < retargetMinBits then retargetMinBits else bits
  if raised > retargetMaxBits then retargetMaxBits else raised

/-- `retarget_difficulty_bits`. -/
def retargetDifficultyBits (bits : UInt32) (elapsed : Int64) : UInt32 :=
  let bits := clampBits bits
  if elapsed ≤ 0 then bits
  else
    let span := clamp64 (retargetTargetSeconds / 4) (retargetTargetSeconds * 4) elapsed.toUInt64
    let work := (1 : UInt64) <<< bits.toUInt64
    let nextWork := clamp64 (work / 4) (work * 4) (work * retargetTargetSeconds / span)
    clampBits (roundLog2 (if nextWork < 1 then 1 else nextWork))

end PiSecure
