import PiSecure.Model.Storage

/-! # Zero bits

The two counts of leading zero bits, loop by loop: of a hex digest in `pihash.cpp`
and of the bytes of a digest in `storage.cpp`.
-/

namespace PiSecure

/-- The value of a hex digit of either case in `PiHash::CountLeadingZeroBits`; any other
character counts as zero. -/
def hexValue (c : Char) : Nat :=
  if '0' ≤ c ∧ c ≤ '9' then c.toNat - '0'.toNat
  else if 'a' ≤ c ∧ c ≤ 'f' then c.toNat - 'a'.toNat + 10
  else if 'A' ≤ c ∧ c ≤ 'F' then c.toNat - 'A'.toNat + 10
  else 0

/-- The loop over the bits of a digit below `bits`, from the highest. -/
def digitZeroBits (value : Nat) : Nat → Nat → Nat
  | 0, zeroBits => zeroBits
  | bit + 1, zeroBits =>
      if value.testBit bit then zeroBits else digitZeroBits value bit (zeroBits + 1)

/-- The loop of `PiHash::CountLeadingZeroBits` with the bits counted so far. -/
def countHexZeroBits : Text → Nat → Nat
  | [], zeroBits => zeroBits
  | c :: hash, zeroBits =>
      if hexValue c = 0 then countHexZeroBits hash (zeroBits + 4)
      else digitZeroBits (hexValue c) 4 zeroBits

/-- `PiHash::CountLeadingZeroBits`. -/
def countLeadingZeroBits (hash : Text) : Nat := countHexZeroBits hash 0

/-- The inner loop of `validate_block_pow`: shift until the high bit is set. -/
def byteZeroBits (byte : UInt8) (zeroBits : Nat) : Nat :=
  if byte &&& 0x80 = 0 ∧ zeroBits < 256 then byteZeroBits (byte <<< 1) (zeroBits + 1) else zeroBits
termination_by 256 - zeroBits

/-- The loop of `validate_block_pow` with the bits counted so far. -/
def countByteZeroBits : Bytes → Nat → Nat
  | [], zeroBits => zeroBits
  | byte :: hash, zeroBits =>
      if byte = 0 then countByteZeroBits hash (zeroBits + 8) else byteZeroBits byte zeroBits

end PiSecure
