import PiSecure.General.Json

/-! # Digests, hexadecimal and little-endian fields

The byte-level helpers of `chain_rpc.cpp`: 32-byte digests, their hexadecimal
text, and the fixed-width fields that a canonical transaction and a header
preimage are built from.
-/

namespace PiSecure

/-- A `std::array<uint8_t, 32>`. -/
structure Digest where
  bytes : Bytes
  size_eq : bytes.length = 32
deriving DecidableEq

namespace Digest

/-- The all-zero digest. -/
def zero : Digest := ⟨List.replicate 32 0, List.length_replicate⟩

instance : Inhabited Digest := ⟨zero⟩

theorem ext_bytes {left right : Digest} (same : left.bytes = right.bytes) : left = right := by
  cases left
  cases right
  cases same
  rfl

/-- The digest of exactly 32 bytes. -/
def ofBytes? (bytes : Bytes) : Option Digest :=
  if sized : bytes.length = 32 then some ⟨bytes, sized⟩ else none

@[simp] theorem ofBytes?_bytes (digest : Digest) : ofBytes? digest.bytes = some digest := by
  simp only [ofBytes?, digest.size_eq, ↓reduceDIte]

/-- The first 32 of the given bytes, filled up with zeros. -/
def ofPrefix (bytes : Bytes) : Digest :=
  ⟨(bytes ++ List.replicate 32 0).take 32, by
    rw [List.length_take, List.length_append, List.length_replicate]
    omega⟩

end Digest

/-- `is_zero`. -/
def isZero (digest : Digest) : Bool := digest.bytes.all (· == 0)

theorem isZero_iff (digest : Digest) : isZero digest = true ↔ digest = Digest.zero := by
  constructor
  · intro zeros
    apply Digest.ext_bytes
    refine List.eq_replicate_iff.mpr ⟨digest.size_eq, ?_⟩
    intro byte member
    exact eq_of_beq (List.all_eq_true.mp zeros byte member)
  · rintro rfl
    decide

/-! ## Hexadecimal -/

/-- The digit of a nibble. -/
def hexDigit (nibble : Nat) : Char := "0123456789abcdef".toList.getD nibble '0'

/-- The two digits of a byte. -/
def hexByte (byte : UInt8) : Text := [hexDigit (byte.toNat / 16), hexDigit (byte.toNat % 16)]

/-- `to_hex`. -/
def toHex (digest : Digest) : Text := digest.bytes.flatMap hexByte

/-- The value of a hexadecimal digit in either case. -/
def nybble (c : Char) : Option Nat :=
  if '0' ≤ c ∧ c ≤ '9' then some (c.toNat - '0'.toNat)
  else if 'a' ≤ c ∧ c ≤ 'f' then some (c.toNat - 'a'.toNat + 10)
  else if 'A' ≤ c ∧ c ≤ 'F' then some (c.toNat - 'A'.toNat + 10)
  else none

/-- `decode_hex`: the bytes of pairs of digits. -/
def decodeHex : Text → Option Bytes
  | [] => some []
  | high :: low :: rest =>
      match nybble high, nybble low, decodeHex rest with
      | some upper, some lower, some bytes => some (UInt8.ofNat (upper * 16 + lower) :: bytes)
      | _, _, _ => none
  | [_] => none

/-- The bytes that are decoded before the first character that is no digit. -/
def decodeHexPrefix : Text → Bytes
  | high :: low :: rest =>
      match nybble high, nybble low with
      | some upper, some lower => UInt8.ofNat (upper * 16 + lower) :: decodeHexPrefix rest
      | _, _ => []
  | _ => []

/-- `from_hex`: 64 digits of either case. -/
def fromHex (hex : Text) : Option Digest :=
  if hex.size ≠ 64 then none else (decodeHex hex).bind Digest.ofBytes?

/-- What `from_hex` leaves in a zeroed array when its result is ignored. -/
def fromHexInto (hex : Text) : Digest :=
  if hex.size ≠ 64 then Digest.zero else Digest.ofPrefix (decodeHexPrefix hex)

/-- The letters `A` to `F` in lower case. -/
def lowerHexChar (c : Char) : Char :=
  if 'A' ≤ c ∧ c ≤ 'F' then Char.ofNat (c.toNat + 32) else c

/-- `lower_hex`. -/
def lowerHex (hex : Text) : Text := hex.map lowerHexChar

/-- An ASCII letter in lower case. -/
def lowerAsciiChar (c : Char) : Char :=
  if 'A' ≤ c ∧ c ≤ 'Z' then Char.ofNat (c.toNat + 32) else c

/-- ASCII letters in lower case, as `fold_name` and `is_ps1_payout` map them. -/
def lowerAscii (text : Text) : Text := text.map lowerAsciiChar

private theorem lower_cases : ∀ n < 91, 65 ≤ n →
    (Char.ofNat (n + 32)).utf8Size = (Char.ofNat n).utf8Size ∧
      (n ≤ 70 → nybble (Char.ofNat (n + 32)) = nybble (Char.ofNat n)) ∧
      lowerHexChar (Char.ofNat (n + 32)) = Char.ofNat (n + 32) ∧
      lowerAsciiChar (Char.ofNat (n + 32)) = Char.ofNat (n + 32) := by
  decide

/-- A letter is the character of its number, which lies in the range. -/
private theorem letter_range {c first last : Char} (inside : first ≤ c ∧ c ≤ last) :
    first.toNat ≤ c.toNat ∧ c.toNat ≤ last.toNat ∧ Char.ofNat c.toNat = c :=
  ⟨inside.1, inside.2, Char.ofNat_toNat c⟩

theorem utf8Size_lowerHexChar (c : Char) : (lowerHexChar c).utf8Size = c.utf8Size := by
  unfold lowerHexChar
  split
  next letter =>
    obtain ⟨low, high, same⟩ := letter_range letter
    have upper : c.toNat < 91 := Nat.lt_of_le_of_lt high (by decide)
    rw [(lower_cases c.toNat upper low).1, same]
  · rfl

theorem nybble_lowerHexChar (c : Char) : nybble (lowerHexChar c) = nybble c := by
  unfold lowerHexChar
  split
  next letter =>
    obtain ⟨low, high, same⟩ := letter_range letter
    have upper : c.toNat < 91 := Nat.lt_of_le_of_lt high (by decide)
    rw [(lower_cases c.toNat upper low).2.1 high, same]
  · rfl

theorem lowerHexChar_idem (c : Char) : lowerHexChar (lowerHexChar c) = lowerHexChar c := by
  by_cases letter : 'A' ≤ c ∧ c ≤ 'F'
  · obtain ⟨low, high, _⟩ := letter_range letter
    have upper : c.toNat < 91 := Nat.lt_of_le_of_lt high (by decide)
    have lowered : lowerHexChar c = Char.ofNat (c.toNat + 32) := if_pos letter
    rw [lowered, (lower_cases c.toNat upper low).2.2.1]
  · have kept : lowerHexChar c = c := if_neg letter
    rw [kept, kept]

theorem utf8Size_lowerAsciiChar (c : Char) : (lowerAsciiChar c).utf8Size = c.utf8Size := by
  unfold lowerAsciiChar
  split
  next letter =>
    obtain ⟨low, high, same⟩ := letter_range letter
    have upper : c.toNat < 91 := Nat.lt_of_le_of_lt high (by decide)
    rw [(lower_cases c.toNat upper low).1, same]
  · rfl

theorem lowerAsciiChar_idem (c : Char) : lowerAsciiChar (lowerAsciiChar c) = lowerAsciiChar c := by
  by_cases letter : 'A' ≤ c ∧ c ≤ 'Z'
  · obtain ⟨low, high, _⟩ := letter_range letter
    have upper : c.toNat < 91 := Nat.lt_of_le_of_lt high (by decide)
    have lowered : lowerAsciiChar c = Char.ofNat (c.toNat + 32) := if_pos letter
    rw [lowered, (lower_cases c.toNat upper low).2.2.2]
  · have kept : lowerAsciiChar c = c := if_neg letter
    rw [kept, kept]

@[simp] theorem size_lowerHex (hex : Text) : Text.size (lowerHex hex) = Text.size hex := by
  rw [Text.size, lowerHex, List.map_map]
  exact congrArg List.sum (List.map_congr_left fun c _ => utf8Size_lowerHexChar c)

@[simp] theorem size_lowerAscii (text : Text) : Text.size (lowerAscii text) = Text.size text := by
  rw [Text.size, lowerAscii, List.map_map]
  exact congrArg List.sum (List.map_congr_left fun c _ => utf8Size_lowerAsciiChar c)

@[simp] theorem lowerHex_lowerHex (hex : Text) : lowerHex (lowerHex hex) = lowerHex hex := by
  rw [lowerHex, lowerHex, List.map_map]
  exact List.map_congr_left fun c _ => lowerHexChar_idem c

@[simp] theorem lowerAscii_lowerAscii (text : Text) :
    lowerAscii (lowerAscii text) = lowerAscii text := by
  rw [lowerAscii, lowerAscii, List.map_map]
  exact List.map_congr_left fun c _ => lowerAsciiChar_idem c

@[simp] theorem length_toHex (digest : Digest) : (toHex digest).length = 64 := by
  have pairs : ∀ bytes : Bytes, (bytes.flatMap hexByte).length = 2 * bytes.length := by
    intro bytes
    induction bytes with
    | nil => rfl
    | cons byte rest ih =>
        rw [List.flatMap_cons, List.length_append, ih, List.length_cons]
        simp only [hexByte, List.length_cons, List.length_nil]
        omega
  rw [toHex, pairs, digest.size_eq]

private theorem nybble_hexDigit : ∀ nibble < 16, nybble (hexDigit nibble) = some nibble := by
  decide

private theorem utf8Size_hexDigit : ∀ nibble < 16, (hexDigit nibble).utf8Size = 1 := by
  decide

private theorem byte_nibbles (byte : UInt8) :
    byte.toNat / 16 < 16 ∧ byte.toNat % 16 < 16 := by
  have below := byte.toNat_lt
  omega

private theorem decodeHex_hex (bytes : Bytes) :
    decodeHex (bytes.flatMap hexByte) = some bytes := by
  induction bytes with
  | nil => rfl
  | cons byte rest ih =>
      obtain ⟨high, low⟩ := byte_nibbles byte
      have whole : byte.toNat / 16 * 16 + byte.toNat % 16 = byte.toNat := by omega
      simp only [List.flatMap_cons, hexByte, List.cons_append, List.nil_append, decodeHex,
        nybble_hexDigit _ high, nybble_hexDigit _ low, ih, whole, UInt8.ofNat_toNat]

@[simp] theorem size_toHex (digest : Digest) : (toHex digest).size = 64 := by
  have pairs : ∀ bytes : Bytes, Text.size (bytes.flatMap hexByte) = 2 * bytes.length := by
    intro bytes
    induction bytes with
    | nil => rfl
    | cons byte rest ih =>
        obtain ⟨high, low⟩ := byte_nibbles byte
        rw [List.flatMap_cons, Text.size_append, ih, List.length_cons]
        simp only [hexByte, Text.size_cons, Text.size_nil, utf8Size_hexDigit _ high,
          utf8Size_hexDigit _ low]
        omega
  rw [toHex, pairs, digest.size_eq]

/-- Reading back the hexadecimal text of a digest. -/
@[simp] theorem fromHex_toHex (digest : Digest) : fromHex (toHex digest) = some digest := by
  rw [fromHex, size_toHex, toHex, decodeHex_hex]
  exact Digest.ofBytes?_bytes digest

private theorem decodeHexPrefix_hex (bytes : Bytes) :
    decodeHexPrefix (bytes.flatMap hexByte) = bytes := by
  induction bytes with
  | nil => rfl
  | cons byte rest ih =>
      obtain ⟨high, low⟩ := byte_nibbles byte
      have whole : byte.toNat / 16 * 16 + byte.toNat % 16 = byte.toNat := by omega
      simp only [List.flatMap_cons, hexByte, List.cons_append, List.nil_append, decodeHexPrefix,
        nybble_hexDigit _ high, nybble_hexDigit _ low, ih, whole, UInt8.ofNat_toNat]

@[simp] theorem fromHexInto_toHex (digest : Digest) : fromHexInto (toHex digest) = digest := by
  rw [fromHexInto, size_toHex, toHex, decodeHexPrefix_hex]
  apply Digest.ext_bytes
  change (digest.bytes ++ _).take 32 = digest.bytes
  rw [← digest.size_eq, List.take_left]

theorem toHex_injective : Function.Injective toHex := by
  intro left right same
  have read := fromHex_toHex left
  rw [same, fromHex_toHex] at read
  exact (Option.some.inj read).symm

private theorem hexDigit_nybble : ∀ n < 103, (nybble (Char.ofNat n)).all fun value =>
    (value < 16 && hexDigit value == Char.ofNat n) ||
      lowerHexChar (Char.ofNat n) != Char.ofNat n := by
  decide

/-- A digit in lower case is the digit of its value. -/
theorem hexDigit_of_nybble {c : Char} {value : Nat} (read : nybble c = some value)
    (lower : lowerHexChar c = c) : value < 16 ∧ hexDigit value = c := by
  have bound : c.toNat < 103 := by
    unfold nybble at read
    split at read
    next digit => exact Nat.lt_of_le_of_lt digit.2 (by decide)
    · split at read
      next letter => exact Nat.lt_of_le_of_lt letter.2 (by decide)
      · split at read
        next letter => exact Nat.lt_of_le_of_lt letter.2 (by decide)
        · cases read
  have listed := hexDigit_nybble c.toNat bound
  rw [Char.ofNat_toNat, read] at listed
  simpa [lower] using listed

/-- Lower-case digits are the digits of the bytes that they encode. -/
theorem hexByte_of_decodeHex {text : Text} {bytes : Bytes} (decoded : decodeHex text = some bytes)
    (lower : lowerHex text = text) : text = bytes.flatMap hexByte := by
  induction text using decodeHex.induct generalizing bytes with
  | case1 =>
      cases decoded
      rfl
  | case2 high low rest upper value others restRead lowRead highRead ih =>
      rw [decodeHex, highRead, lowRead, restRead] at decoded
      cases decoded
      simp only [lowerHex, List.map_cons, List.cons.injEq] at lower
      obtain ⟨highBelow, highIs⟩ := hexDigit_of_nybble highRead lower.1
      obtain ⟨lowBelow, lowIs⟩ := hexDigit_of_nybble lowRead lower.2.1
      have byte : (UInt8.ofNat (upper * 16 + value)).toNat = upper * 16 + value := by
        rw [UInt8.toNat_ofNat']
        exact Nat.mod_eq_of_lt (by omega)
      have quotient : (upper * 16 + value) / 16 = upper := by omega
      have remainder : (upper * 16 + value) % 16 = value := by omega
      rw [List.flatMap_cons, ← ih restRead lower.2.2, hexByte, byte, quotient, remainder, highIs,
        lowIs]
      rfl
  | case3 high low rest missing ih =>
      rw [decodeHex] at decoded
      split at decoded
      next upper value others highRead lowRead restRead =>
        exact absurd restRead (missing upper value others highRead lowRead)
      · cases decoded
  | case4 last => cases decoded

/-- What has no capital letters has no capital digits. -/
theorem lowerHex_of_lowerAscii {text : Text} (lower : lowerAscii text = text) :
    lowerHex text = text := by
  have each : ∀ c ∈ text, lowerAsciiChar c = c := by
    rw [← List.map_eq_map_iff, List.map_id']
    exact lower
  refine (List.map_congr_left ?_).trans (List.map_id _)
  intro c member
  by_cases letter : 'A' ≤ c ∧ c ≤ 'F'
  · have capital : 'A' ≤ c ∧ c ≤ 'Z' := ⟨letter.1, Nat.le_trans letter.2 (by decide)⟩
    have lowered := each c member
    rw [lowerAsciiChar, if_pos capital] at lowered
    rw [lowerHexChar, if_pos letter]
    exact lowered
  · exact if_neg letter

/-! ## Little-endian fields -/

/-- The `count` low bytes of a number, lowest first. -/
def leBytes : Nat → Nat → Bytes
  | 0, _ => []
  | count + 1, value => UInt8.ofNat value :: leBytes count (value / 256)

/-- `append_u16`, `append_u32` and `append_u64` as suffixes. -/
def u16Bytes (value : Nat) : Bytes := leBytes 2 value

def u32Bytes (value : Nat) : Bytes := leBytes 4 value

def u64Bytes (value : Nat) : Bytes := leBytes 8 value

@[simp] theorem length_leBytes (count value : Nat) : (leBytes count value).length = count := by
  induction count generalizing value with
  | zero => rfl
  | succ count ih => rw [leBytes, List.length_cons, ih]

/-- A little-endian field determines its number modulo the range of the field. -/
theorem leBytes_inj {count first second : Nat} (same : leBytes count first = leBytes count second) :
    first % 256 ^ count = second % 256 ^ count := by
  induction count generalizing first second with
  | zero => rw [Nat.pow_zero, Nat.mod_one, Nat.mod_one]
  | succ count ih =>
      rw [leBytes, leBytes, List.cons.injEq] at same
      have low : first % 256 = second % 256 := by
        have bytes := congrArg UInt8.toNat same.1
        simpa only [UInt8.toNat_ofNat'] using bytes
      have high := ih same.2
      rw [Nat.pow_succ, Nat.mul_comm, Nat.mod_mul, Nat.mod_mul, low, high]

end PiSecure
