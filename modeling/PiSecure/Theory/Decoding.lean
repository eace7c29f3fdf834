import PiSecure.Model.Wire

/-! # Decoders stay inside their payload

Which payloads the decoders of peer messages read without leaving them. Most
check what is left before each field. A version is checked for four bytes too
few, and an alert is not checked behind its first two texts.
-/

namespace PiSecure

open Reading

/-- A length at the front of a string, and what follows it. A length that is cut
off counts as zero. -/
def splitLength : Bytes → Nat × Bytes
  | [] => (0, [])
  | first :: rest =>
      if first.toNat < 0xFD then (first.toNat, rest)
      else if first.toNat = 0xFD ∧ 2 ≤ rest.length then (readLe (rest.take 2), rest.drop 2)
      else if first.toNat = 0xFE ∧ 4 ≤ rest.length then (readLe (rest.take 4), rest.drop 4)
      else if first.toNat = 0xFF ∧ 8 ≤ rest.length then (readLe (rest.take 8), rest.drop 8)
      else (0, rest)

/-- What follows a text with its length in front. A text that is cut off counts
as empty. -/
def afterText (data : Bytes) : Bytes :=
  if (splitLength data).1 ≤ (splitLength data).2.length then
    (splitLength data).2.drop (splitLength data).1
  else (splitLength data).2

/-- The decoder has a result, so it reads inside the payload only. -/
def Inside {Message : Type} (reader : Bytes → Reader (Option Message)) (data : Bytes) : Prop :=
  (decode reader data).isSome

variable {data rest : Bytes} {offset : Nat}

theorem inside_iff {Message : Type} {reader : Bytes → Reader (Option Message)} :
    Inside reader data ↔ Ends (reader data) 0 fun _ _ => True := by
  rw [Inside, decode, Option.isSome_map, isSome_iff]

/-! ## Fields -/

@[simp] theorem ends_readUint32 {post : UInt32 → Nat → Prop} :
    Ends (readUint32 data) offset post ↔
      offset + 4 ≤ data.length ∧
        post (UInt32.ofNat (readLe (slice data offset 4))) (offset + 4) := by
  rw [readUint32, ends_map, ends_take]

@[simp] theorem ends_readUint64 {post : UInt64 → Nat → Prop} :
    Ends (readUint64 data) offset post ↔
      offset + 8 ≤ data.length ∧
        post (UInt64.ofNat (readLe (slice data offset 8))) (offset + 8) := by
  rw [readUint64, ends_map, ends_take]

@[simp] theorem ends_readDigest {post : Digest → Nat → Prop} :
    Ends (readDigest data) offset post ↔
      offset + 32 ≤ data.length ∧
        post (Digest.ofPrefix (slice data offset 32)) (offset + 32) := by
  rw [readDigest, ends_map, ends_take]

theorem readLe_lt (bytes : Bytes) : readLe bytes < 256 ^ bytes.length := by
  induction bytes with
  | nil => exact Nat.one_pos
  | cons byte bytes ih =>
      have below := byte.toNat_lt
      rw [readLe, List.length_cons, Nat.pow_succ]
      omega

/-- A number of a length field, read where it stands. -/
private theorem number_at {first : UInt8} (place : At data offset (first :: rest)) (count : Nat)
    (fits : count ≤ rest.length) :
    slice data (offset + 1) count = rest.take count ∧
      At data (offset + 1 + count) (rest.drop count) := by
  have moved := place.next.1
  have parted : At data (offset + 1) (rest.take count ++ rest.drop count) := by
    rwa [List.take_append_drop]
  have length : (rest.take count).length = count := List.length_take_of_le fits
  have read := parted.slice
  have behind := parted.move
  rw [length] at read behind
  exact ⟨read, behind⟩

/-- `readVarInt` reads the length at the front of what is left. -/
theorem readVarInt_ends (place : At data offset rest) :
    Ends (readVarInt data) offset fun value moved =>
      value = (splitLength rest).1 ∧ At data moved (splitLength rest).2 := by
  have length := place.length
  rw [readVarInt, ends_bind, ends_get]
  cases rest with
  | nil =>
      rw [if_pos (by rw [List.length_nil] at length; omega)]
      exact ends_pure.mpr ⟨rfl, place⟩
  | cons first rest =>
      rw [List.length_cons] at length
      obtain ⟨moved, byte⟩ := place.next
      have number : readLe [first] = first.toNat := by
        rw [readLe, readLe, Nat.mul_zero, Nat.add_zero]
      have fits : ∀ count, offset + 1 + count ≤ data.length ↔ count ≤ rest.length := by
        intro count
        omega
      rw [if_neg (by omega), ends_bind, ends_take]
      refine ⟨by omega, ?_⟩
      simp only [ends_bind, ends_get, byte, number, fits, splitLength]
      by_cases small : first.toNat < 0xFD
      · rw [if_pos small, if_pos small]
        exact ends_pure.mpr ⟨rfl, moved⟩
      rw [if_neg small, if_neg small]
      by_cases short : first.toNat = 0xFD ∧ 2 ≤ rest.length
      · obtain ⟨read, behind⟩ := number_at place 2 short.2
        rw [if_pos short, if_pos short, ends_map, ends_take, read]
        exact ⟨by omega, rfl, behind⟩
      rw [if_neg short, if_neg short]
      by_cases middle : first.toNat = 0xFE ∧ 4 ≤ rest.length
      · obtain ⟨read, behind⟩ := number_at place 4 middle.2
        have bound := readLe_lt (rest.take 4)
        rw [List.length_take_of_le middle.2] at bound
        rw [if_pos middle, if_pos middle, ends_map, ends_readUint32, read]
        exact ⟨by omega, UInt32.toNat_ofNat_of_lt' bound, behind⟩
      rw [if_neg middle, if_neg middle]
      by_cases long : first.toNat = 0xFF ∧ 8 ≤ rest.length
      · obtain ⟨read, behind⟩ := number_at place 8 long.2
        have bound := readLe_lt (rest.take 8)
        rw [List.length_take_of_le long.2] at bound
        rw [if_pos long, if_pos long, ends_map, ends_readUint64, read]
        exact ⟨by omega, UInt64.toNat_ofNat_of_lt' bound, behind⟩
      rw [if_neg long, if_neg long]
      exact ends_pure.mpr ⟨rfl, moved⟩

/-- `readString` moves past the text at the front of what is left. -/
theorem readString_ends (place : At data offset rest) :
    Ends (readString data) offset fun _ moved => At data moved (afterText rest) := by
  rw [readString, ends_bind]
  refine (readVarInt_ends place).mono ?_
  rintro len moved ⟨rfl, behind⟩
  have length := behind.length
  rw [ends_bind, ends_get, afterText]
  by_cases fits : (splitLength rest).1 ≤ (splitLength rest).2.length
  · have parted : At data moved ((splitLength rest).2.take (splitLength rest).1 ++
        (splitLength rest).2.drop (splitLength rest).1) := by
      rwa [List.take_append_drop]
    have past := parted.move
    rw [List.length_take_of_le fits] at past
    rw [if_neg (by omega), if_pos fits]
    exact ends_take.mpr ⟨by omega, past⟩
  · rw [if_pos (by omega), if_neg fits]
    exact ends_pure.mpr behind

/-! ## Decoders that check every field -/

theorem deserializePing_inside (data : Bytes) : Inside deserializePing data := by
  rw [inside_iff, deserializePing]
  split
  · exact ends_pure.mpr trivial
  · rw [ends_map, ends_readUint64]
    exact ⟨by omega, trivial⟩

theorem deserializeAddr_inside (data : Bytes) : Inside deserializeAddr data := by
  rw [inside_iff, deserializeAddr]
  split
  · exact ends_pure.mpr trivial
  · rw [ends_bind]
    refine (readVarInt_ends (At.start data)).mono ?_
    rintro count moved ⟨_, place⟩
    split
    · exact ends_pure.mpr trivial
    · refine (ends_many ?_ count place.inside).mono fun _ _ _ => trivial
      intro offset fits
      simp only [readPeerAddr, ends_map, ends_bind, ends_readUint64, ends_readUint32, ends_take,
        ends_pure]
      omega

theorem deserializeInv_inside (data : Bytes) : Inside deserializeInv data := by
  rw [inside_iff, deserializeInv]
  split
  · exact ends_pure.mpr trivial
  · rw [ends_bind]
    refine (readVarInt_ends (At.start data)).mono ?_
    rintro count moved ⟨_, place⟩
    split
    · exact ends_pure.mpr trivial
    · refine (ends_many ?_ count place.inside).mono fun _ _ _ => trivial
      intro offset fits
      simp only [readInvVect, ends_map, ends_bind, ends_readUint32, ends_readDigest, ends_pure]
      omega

theorem deserializeGetHeaders_inside (data : Bytes) : Inside deserializeGetHeaders data := by
  rw [inside_iff, deserializeGetHeaders]
  split
  · exact ends_pure.mpr trivial
  next long =>
    rw [ends_bind, ends_skip, ends_bind]
    have skipped : At data (0 + 4) (data.drop (0 + 4)) := ⟨by omega, rfl⟩
    refine (readVarInt_ends skipped).mono ?_
    rintro count moved ⟨_, place⟩
    split
    · exact ends_pure.mpr trivial
    · rw [ends_bind]
      refine (ends_many ?_ count place.inside).mono ?_
      · intro offset fits
        simp only [ends_map, ends_readDigest]
        omega
      · intro locator ended _
        cases locator with
        | none => exact ends_pure.mpr trivial
        | some hashes =>
            rw [ends_bind, ends_readIf]
            split
            next fits => exact ends_readDigest.mpr ⟨fits, ends_pure.mpr trivial⟩
            · exact ends_pure.mpr trivial

theorem ends_readHeaderFields {post : BlockHeader → Nat → Prop}
    (fits : offset + 88 ≤ data.length) (holds : ∀ header, post header (offset + 88)) :
    Ends (readHeaderFields data) offset post := by
  simp only [readHeaderFields, ends_bind, ends_readUint32, ends_readUint64, ends_readDigest,
    ends_pure]
  refine ⟨by omega, by omega, by omega, by omega, by omega, by omega, ?_⟩
  exact holds _

theorem deserializeHeaders_inside (data : Bytes) : Inside deserializeHeaders data := by
  rw [inside_iff, deserializeHeaders]
  split
  · exact ends_pure.mpr trivial
  · rw [ends_bind]
    refine (readVarInt_ends (At.start data)).mono ?_
    rintro count moved ⟨_, place⟩
    split
    · exact ends_pure.mpr trivial
    rw [ends_bind, ends_get]
    split
    · exact ends_pure.mpr trivial
    rw [ends_bind]
    refine (ends_many ?_ count place.inside).mono ?_
    · intro offset fits
      have size : kCompactHeaderBytes = 120 := rfl
      rw [size] at fits
      simp only [readCompactHeader, ends_bind, ends_get]
      refine ends_readHeaderFields (by omega) ?_
      intro header
      rw [ends_readDigest]
      refine ⟨by omega, ?_⟩
      split
      · exact ends_pure.mpr (by omega)
      · exact ends_pure.mpr (by omega)
    · intro headers ended _
      cases headers with
      | none => exact ends_pure.mpr trivial
      | some found =>
          rw [ends_bind, ends_get]
          split
          · exact ends_pure.mpr trivial
          · exact ends_pure.mpr trivial

theorem readBinaryHeader_inside (host : Host) (data : Bytes) :
    Inside (readBinaryHeader host) data := by
  rw [inside_iff, readBinaryHeader]
  split
  · exact ends_pure.mpr trivial
  · rw [ends_bind]
    refine ends_readHeaderFields (by omega) ?_
    intro header
    rw [ends_bind, ends_peek]
    exact ⟨by omega, ends_pure.mpr trivial⟩

theorem decode_of_ends {Message : Type} {reader : Bytes → Reader (Option Message)}
    {message : Option Message} (ends : Ends (reader data) 0 fun read _ => read = message) :
    decode reader data = some message := by
  obtain ⟨read, moved, run, rfl⟩ := ends
  rw [decode, run]
  rfl

/-! ## Decoders that check too little -/

/-- The fields in front of the user agent take 44 bytes, of which 40 are checked. -/
theorem deserializeVersion_inside_iff (data : Bytes) :
    Inside deserializeVersion data ↔ data.length < 40 ∨ 44 ≤ data.length := by
  rw [inside_iff, deserializeVersion]
  by_cases short : data.length < 40
  · rw [if_pos short]
    exact ⟨fun _ => .inl short, fun _ => ends_pure.mpr trivial⟩
  rw [if_neg short]
  simp only [ends_bind, ends_map, ends_readUint32, ends_readUint64, ends_skip]
  constructor
  · intro ends
    omega
  · intro long
    refine ⟨by omega, by omega, by omega, by omega, ?_⟩
    have place : At data (0 + 4 + 8 + 8 + 16 + 8) (data.drop (0 + 4 + 8 + 8 + 16 + 8)) :=
      ⟨by omega, rfl⟩
    refine (readString_ends place).mono ?_
    intro userAgent moved behind
    rw [ends_readIf]
    split
    next fits => exact ends_readUint32.mpr ⟨fits, ends_pure.mpr trivial⟩
    · exact ends_pure.mpr trivial

/-- The address and the time behind the first two texts take twelve bytes, which
are not checked. -/
theorem deserializeThreatAlert_inside_iff (data : Bytes) :
    Inside deserializeThreatAlert data ↔
      data.length < 20 ∨ 12 ≤ (afterText (afterText data)).length := by
  rw [inside_iff, deserializeThreatAlert]
  by_cases short : data.length < 20
  · rw [if_pos short]
    exact ⟨fun _ => .inl short, fun _ => ends_pure.mpr trivial⟩
  rw [if_neg short, ends_bind]
  have type := readString_ends (At.start data)
  constructor
  · intro ends
    obtain ⟨threatType, second, _, place, ends⟩ := type.and ends
    rw [ends_bind] at ends
    obtain ⟨severity, third, _, behind, ends⟩ := (readString_ends place).and ends
    simp only [ends_bind, ends_readUint32, ends_readUint64] at ends
    have length := behind.length
    omega
  · intro long
    refine type.mono ?_
    intro threatType second place
    rw [ends_bind]
    refine (readString_ends place).mono ?_
    intro severity third behind
    have length := behind.length
    simp only [ends_bind, ends_readUint32, ends_readUint64]
    refine ⟨by omega, by omega, ?_⟩
    have texts : At data (third + 4 + 8) (data.drop (third + 4 + 8)) := ⟨by omega, rfl⟩
    refine (readString_ends texts).mono ?_
    intro details fourth detailed
    refine (readString_ends detailed).mono ?_
    intro reporter fifth reported
    rw [ends_readIf]
    split
    next fits => exact ends_readUint64.mpr ⟨fits, ends_pure.mpr trivial⟩
    · exact ends_pure.mpr trivial

/-! ## All decoders -/

/-- Every decoder of a peer message reads inside this payload only. -/
structure DecodersInside (host : Host) (data : Bytes) : Prop where
  version : Inside deserializeVersion data
  addr : Inside deserializeAddr data
  inv : Inside deserializeInv data
  getHeaders : Inside deserializeGetHeaders data
  headers : Inside deserializeHeaders data
  ping : Inside deserializePing data
  threatAlert : Inside deserializeThreatAlert data
  binaryHeader : Inside (readBinaryHeader host) data

/-- The decoders stay inside a payload exactly when it is no version cut off in
its nonce and no alert cut off in its address or time. -/
theorem decoders_inside_iff (host : Host) (data : Bytes) :
    DecodersInside host data ↔
      (data.length < 40 ∨ 44 ≤ data.length) ∧
        (data.length < 20 ∨ 12 ≤ (afterText (afterText data)).length) := by
  constructor
  · intro inside
    exact ⟨(deserializeVersion_inside_iff data).mp inside.version,
      (deserializeThreatAlert_inside_iff data).mp inside.threatAlert⟩
  · rintro ⟨version, alert⟩
    exact {
      version := (deserializeVersion_inside_iff data).mpr version
      addr := deserializeAddr_inside data
      inv := deserializeInv_inside data
      getHeaders := deserializeGetHeaders_inside data
      headers := deserializeHeaders_inside data
      ping := deserializePing_inside data
      threatAlert := (deserializeThreatAlert_inside_iff data).mpr alert
      binaryHeader := readBinaryHeader_inside host data }

/-- A version of 40 bytes is read to offset 44, and an alert of 20 bytes that one
text fills is read to offset 24. -/
theorem decoders_leave_payload :
    ¬Inside deserializeVersion (List.replicate 40 0) ∧
      ¬Inside deserializeThreatAlert (19 :: List.replicate 19 0) := by
  unfold Inside
  decide

end PiSecure
