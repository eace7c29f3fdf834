import PiSecure.Model.Work

/-! # Proof of work

The zero bits of a digest counted byte by byte, counted on its hex text, and read
off its bits are one number. The comparison with a difficulty goes through a signed
number, so from `2 ^ 31` on every digest passes.
-/

namespace PiSecure

/-- The bits of a byte, the most significant first. -/
def byteBits (byte : UInt8) : List Bool :=
  (List.range 8).map fun bit => byte.toNat.testBit (7 - bit)

/-- The bits of a digest, the most significant of its first byte first. -/
def digestBits (bytes : Bytes) : List Bool := bytes.flatMap byteBits

/-- The digest has that many bits, and all of them are zero. -/
def FirstBitsZero (digest : Digest) (count : ℕ) : Prop :=
  count ≤ 256 ∧ ∀ bit ∈ (digestBits digest.bytes).take count, bit = false

/-- The bits before the first that is set. -/
def leadingZeros (bits : List Bool) : ℕ := (bits.takeWhile (!·)).length

/-- A run of zeros from the start is no longer than the leading zeros. -/
theorem le_leadingZeros {bits : List Bool} {count : ℕ} :
    count ≤ leadingZeros bits ↔ count ≤ bits.length ∧ ∀ bit ∈ bits.take count, bit = false := by
  induction bits generalizing count with
  | nil =>
      refine ⟨fun none => ⟨none, ?_⟩, fun short => short.1⟩
      rw [List.take_nil]
      exact List.forall_mem_nil _
  | cons bit bits ih =>
      cases count with
      | zero => exact ⟨fun _ => ⟨Nat.zero_le _, List.forall_mem_nil _⟩, fun _ => Nat.zero_le _⟩
      | succ count =>
          rw [List.take_succ_cons, List.forall_mem_cons, List.length_cons, Nat.succ_le_succ_iff]
          cases bit with
          | true => exact ⟨fun wrong => absurd wrong (Nat.not_succ_le_zero count),
              fun wrong => absurd wrong.2.1 (by decide)⟩
          | false =>
              have counted : leadingZeros (false :: bits) = leadingZeros bits + 1 := rfl
              rw [counted, Nat.succ_le_succ_iff, ih]
              exact ⟨fun ⟨short, zero⟩ => ⟨short, rfl, zero⟩, fun ⟨short, _, zero⟩ => ⟨short, zero⟩⟩

theorem leadingZeros_append {first second : List Bool} :
    leadingZeros (first ++ second) =
      if ∀ bit ∈ first, bit = false then first.length + leadingZeros second
      else leadingZeros first := by
  induction first with
  | nil => rw [if_pos (List.forall_mem_nil _), List.length_nil, Nat.zero_add, List.nil_append]
  | cons bit first ih =>
      cases bit with
      | true =>
          rw [if_neg fun zero => absurd (zero true List.mem_cons_self) (by decide)]
          rfl
      | false =>
          have counted (rest : List Bool) : leadingZeros (false :: rest) = leadingZeros rest + 1 :=
            rfl
          rw [List.cons_append, counted, counted, ih, List.length_cons]
          simp only [List.forall_mem_cons, true_and]
          split <;> omega

/-! ## The two counts -/

/-- What holds of every byte holds if it holds of the first 256 numbers. -/
theorem forall_byte {motive : UInt8 → Prop} (values : ∀ value : Fin 256, motive (UInt8.ofFin value))
    (byte : UInt8) : motive byte :=
  values byte.toFin

theorem leadingZeros_byte (byte : UInt8) : (byte = 0 ↔ ∀ bit ∈ byteBits byte, bit = false) ∧
    Storage.leadingZeroBits byte = leadingZeros (byteBits byte) := by
  revert byte
  exact forall_byte (by decide +kernel)

/-- The digits of a byte: two zeros for zero, otherwise a count that ends in it. -/
theorem digitZeroBits_add (value bits zeroBits : ℕ) :
    digitZeroBits value bits zeroBits = zeroBits + digitZeroBits value bits 0 := by
  induction bits generalizing zeroBits with
  | zero => rfl
  | succ bit ih =>
      unfold digitZeroBits
      split
      · rfl
      · rw [ih, ih (0 + 1)]
        omega

theorem hexZeroBits_byte (byte : UInt8) : byte ≠ 0 →
    (if hexValue (hexDigit (byte.toNat / 16)) = 0 then
      4 + digitZeroBits (hexValue (hexDigit (byte.toNat % 16))) 4 0
    else digitZeroBits (hexValue (hexDigit (byte.toNat / 16))) 4 0) =
      leadingZeros (byteBits byte) ∧
    (hexValue (hexDigit (byte.toNat / 16)) = 0 → hexValue (hexDigit (byte.toNat % 16)) ≠ 0) := by
  revert byte
  exact forall_byte (by decide +kernel)

theorem countZeroBits_eq (bytes : Bytes) :
    Storage.countZeroBits bytes = leadingZeros (digestBits bytes) := by
  induction bytes with
  | nil => rfl
  | cons byte bytes ih =>
      obtain ⟨zero, counted⟩ := leadingZeros_byte byte
      rw [Storage.countZeroBits, digestBits, List.flatMap_cons, leadingZeros_append, ih]
      simp only [← zero, counted]
      rfl

theorem countHexZeroBits_eq (bytes : Bytes) (zeroBits : ℕ) :
    countHexZeroBits (bytes.flatMap hexByte) zeroBits =
      zeroBits + leadingZeros (digestBits bytes) := by
  induction bytes generalizing zeroBits with
  | nil => rfl
  | cons byte bytes ih =>
      obtain ⟨zero, _⟩ := leadingZeros_byte byte
      rw [digestBits, List.flatMap_cons, List.flatMap_cons, leadingZeros_append]
      simp only [← zero]
      change countHexZeroBits (hexDigit (byte.toNat / 16) :: hexDigit (byte.toNat % 16) :: _) _ = _
      split
      next quiet =>
        subst quiet
        change countHexZeroBits (bytes.flatMap hexByte) (zeroBits + 4 + 4) = _
        rw [ih]
        change _ = zeroBits + (8 + leadingZeros (digestBits bytes))
        omega
      next loud =>
        obtain ⟨counted, low⟩ := hexZeroBits_byte byte loud
        rw [← counted, countHexZeroBits]
        split
        next high =>
          rw [countHexZeroBits, if_neg (low high), digitZeroBits_add, Nat.add_assoc]
        next high =>
          exact digitZeroBits_add _ _ _

/-! ## The loop of the storage -/

/-- A shift takes one leading zero away. -/
theorem leadingZeroBits_shift (byte : UInt8) : byte ≠ 0 →
    (byte &&& 0x80 = 0 → byte <<< 1 ≠ 0 ∧
      Storage.leadingZeroBits byte = Storage.leadingZeroBits (byte <<< 1) + 1) ∧
    (byte &&& 0x80 ≠ 0 → Storage.leadingZeroBits byte = 0) ∧ Storage.leadingZeroBits byte < 8 := by
  revert byte
  exact forall_byte (by decide +kernel)

/-- The bound of the inner loop never stops it. -/
theorem byteZeroBits_eq (byte : UInt8) (zeroBits : ℕ) (present : byte ≠ 0)
    (room : zeroBits + Storage.leadingZeroBits byte < 256) :
    byteZeroBits byte zeroBits = zeroBits + Storage.leadingZeroBits byte := by
  induction byte, zeroBits using byteZeroBits.induct with
  | case1 byte zeroBits more ih =>
      obtain ⟨shifted, counted⟩ := (leadingZeroBits_shift byte present).1 more.1
      rw [counted] at room
      rw [byteZeroBits, if_pos more, ih shifted (by omega), counted]
      omega
  | case2 byte zeroBits stopped =>
      have high : byte &&& 0x80 ≠ 0 := fun low => stopped ⟨low, by omega⟩
      rw [byteZeroBits, if_neg stopped, (leadingZeroBits_shift byte present).2.1 high]
      rfl

theorem countByteZeroBits_eq (bytes : Bytes) (zeroBits : ℕ)
    (room : zeroBits + 8 * bytes.length ≤ 256) :
    countByteZeroBits bytes zeroBits = zeroBits + Storage.countZeroBits bytes := by
  induction bytes generalizing zeroBits with
  | nil => rfl
  | cons byte bytes ih =>
      rw [List.length_cons] at room
      rw [countByteZeroBits, Storage.countZeroBits]
      split
      · rw [ih _ (by omega)]
        omega
      next present =>
        have below := (leadingZeroBits_shift byte present).2.2
        exact byteZeroBits_eq byte zeroBits present (by omega)

/-! ## The work checks -/

theorem length_digestBits (bytes : Bytes) : (digestBits bytes).length = 8 * bytes.length := by
  induction bytes with
  | nil => rfl
  | cons byte bytes ih =>
      have eight : (byteBits byte).length = 8 := rfl
      rw [digestBits, List.flatMap_cons, List.length_append, eight]
      change 8 + (digestBits bytes).length = _
      rw [ih, List.length_cons]
      omega

theorem firstBitsZero_iff {digest : Digest} {count : ℕ} :
    FirstBitsZero digest count ↔ count ≤ countByteZeroBits digest.bytes 0 := by
  have length : (digestBits digest.bytes).length = 256 := by
    rw [length_digestBits, digest.size_eq]
  have room : 0 + 8 * digest.bytes.length ≤ 256 := by
    rw [digest.size_eq]
  rw [countByteZeroBits_eq _ _ room, Nat.zero_add, countZeroBits_eq, le_leadingZeros, length]
  exact Iff.rfl

theorem countLeadingZeroBits_toHex (digest : Digest) :
    countLeadingZeroBits (toHex digest) = countByteZeroBits digest.bytes 0 := by
  have room : 0 + 8 * digest.bytes.length ≤ 256 := by
    rw [digest.size_eq]
  rw [countByteZeroBits_eq _ _ room, countZeroBits_eq]
  exact countHexZeroBits_eq digest.bytes 0

/-- A difficulty below `2 ^ 31` is compared as itself, any other as a negative number. -/
theorem validateBlockPow_iff {digest : Digest} {difficulty : UInt32} :
    Storage.validateBlockPow digest difficulty = true ↔
      2 ^ 31 ≤ difficulty.toNat ∨ difficulty.toNat ≤ countByteZeroBits digest.bytes 0 := by
  have room : 0 + 8 * digest.bytes.length ≤ 256 := by
    rw [digest.size_eq]
  have signed : difficulty.toInt32.toInt =
      if difficulty.toNat < 2 ^ 31 then (difficulty.toNat : ℤ) else difficulty.toNat - 2 ^ 32 := by
    have value := BitVec.toInt_eq_toNat_cond difficulty.toBitVec
    change difficulty.toInt32.toInt = if 2 * difficulty.toNat < 2 ^ 32 then _ else _ at value
    rw [value]
    exact if_congr (by omega) rfl rfl
  have bound := difficulty.toNat_lt
  rw [countByteZeroBits_eq _ _ room, Nat.zero_add, Storage.validateBlockPow, decide_eq_true_eq,
    signed]
  split <;> omega

/-- The storage passes exactly the digests whose first bits are zero, and agrees with the count
on the hex digest, as long as the difficulty is below `2 ^ 31`. -/
theorem work_checks_agree_iff (digest : Digest) (difficulty : UInt32) :
    ((Storage.validateBlockPow digest difficulty = true ↔
        FirstBitsZero digest difficulty.toNat) ∧
      (Storage.validateBlockPow digest difficulty = true ↔
        difficulty.toNat ≤ countLeadingZeroBits (toHex digest))) ↔
      difficulty.toNat < 2 ^ 31 := by
  rw [validateBlockPow_iff, firstBitsZero_iff, countLeadingZeroBits_toHex, and_self]
  have most : countByteZeroBits digest.bytes 0 ≤ 256 := (firstBitsZero_iff.mpr (Nat.le_refl _)).1
  constructor
  · intro agree
    by_contra large
    have wrong := agree.mp (Or.inl (Nat.not_lt.mp large))
    omega
  · intro small
    omega

/-- A digest without a zero bit passes for `2 ^ 31` bits. -/
theorem negative_difficulty_passes :
    ¬∀ (digest : Digest) (difficulty : UInt32),
      (Storage.validateBlockPow digest difficulty = true ↔
        FirstBitsZero digest difficulty.toNat) ∧
      (Storage.validateBlockPow digest difficulty = true ↔
        difficulty.toNat ≤ countLeadingZeroBits (toHex digest)) := by
  intro agree
  have passed : Storage.validateBlockPow ⟨List.replicate 32 255, List.length_replicate⟩ 0x80000000 =
      true := by
    decide
  exact absurd ((agree _ _).1.mp passed).1 (by decide)

end PiSecure
