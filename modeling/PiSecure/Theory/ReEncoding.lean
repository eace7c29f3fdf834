import PiSecure.Theory.Frames

/-! # Encoding what was decoded

A payload of headers is its count and the bytes of its headers. The headers are
written again byte by byte, and the count in the shortest form, while the reader
takes it in every form.
-/

namespace PiSecure

open Reading

/-! ## Headers -/

/-- Every 120 bytes are a header. -/
theorem exists_header {code : Bytes} (size : code.length = kCompactHeaderBytes) :
    ∃ header, serializeHeader header = code := by
  have total : code.length = 120 := size
  have number (count start : ℕ) (inside : start + count ≤ 120) :
      leBytes count (readLe ((code.drop start).take count)) = (code.drop start).take count := by
    have length : ((code.drop start).take count).length = count := by
      rw [List.length_take, List.length_drop]
      omega
    have kept := leBytes_readLe ((code.drop start).take count)
    rwa [length] at kept
  have word (start : ℕ) (inside : start + 4 ≤ 120) :
      writeUint32 (UInt32.ofNat (readLe ((code.drop start).take 4))) =
        (code.drop start).take 4 := by
    have bound := readLe_lt ((code.drop start).take 4)
    rw [List.length_take, List.length_drop, total, Nat.min_eq_left (by omega)] at bound
    rw [writeUint32, UInt32.toNat_ofNat_of_lt' bound]
    exact number 4 start inside
  have long (start : ℕ) (inside : start + 8 ≤ 120) :
      writeUint64 (UInt64.ofNat (readLe ((code.drop start).take 8))) =
        (code.drop start).take 8 := by
    have bound := readLe_lt ((code.drop start).take 8)
    rw [List.length_take, List.length_drop, total, Nat.min_eq_left (by omega)] at bound
    rw [writeUint64, UInt64.toNat_ofNat_of_lt' bound]
    exact number 8 start inside
  have digest (start : ℕ) (inside : start + 32 ≤ 120) :
      ((code.drop start).take 32).length = 32 := by
    rw [List.length_take, List.length_drop]
    omega
  have chunk (start count : ℕ) :
      code.drop start = (code.drop start).take count ++ code.drop (start + count) := by
    rw [← List.drop_drop, List.take_append_drop]
  refine ⟨{ version := UInt32.ofNat (readLe ((code.drop 0).take 4))
            prevBlockHash := ⟨(code.drop 4).take 32, digest 4 (by decide)⟩
            merkleRoot := ⟨(code.drop 36).take 32, digest 36 (by decide)⟩
            timestamp := UInt64.ofNat (readLe ((code.drop 68).take 8))
            difficulty := UInt32.ofNat (readLe ((code.drop 76).take 4))
            nonce := UInt64.ofNat (readLe ((code.drop 80).take 8))
            hash := ⟨(code.drop 88).take 32, digest 88 (by decide)⟩
            height := 0 }, ?_⟩
  have last : (code.drop 88).take 32 = code.drop 88 := by
    rw [List.take_of_length_le]
    rw [List.length_drop]
    omega
  simp only [serializeHeader]
  rw [word 0 (by decide), long 68 (by decide), word 76 (by decide), long 80 (by decide), last]
  simp only [List.append_assoc]
  rw [← chunk 80 8, ← chunk 76 4, ← chunk 68 8, ← chunk 36 32, ← chunk 4 32, ← chunk 0 4]
  rfl

theorem exists_headers {count : ℕ} {body : Bytes}
    (size : body.length = count * kCompactHeaderBytes) :
    ∃ headers : List BlockHeader, headers.length = count ∧
      headers.flatMap serializeHeader = body := by
  induction count generalizing body with
  | zero =>
      rw [Nat.zero_mul, List.length_eq_zero_iff] at size
      exact ⟨[], rfl, size.symm⟩
  | succ count ih =>
      have width : kCompactHeaderBytes = 120 := rfl
      rw [width] at size
      obtain ⟨header, first⟩ := @exists_header (body.take 120) (by
        rw [List.length_take, width]
        omega)
      obtain ⟨headers, length, rest⟩ := @ih (body.drop 120) (by
        rw [List.length_drop, width]
        omega)
      refine ⟨header :: headers, congrArg Nat.succ length, ?_⟩
      rw [List.flatMap_cons, first, rest, List.take_append_drop]

theorem flatMap_sent (headers : List BlockHeader) :
    (headers.map BlockHeader.sent).flatMap serializeHeader = headers.flatMap serializeHeader := by
  rw [List.flatMap_map]
  rfl

/-! ## The count -/

/-- The count in front is written in the shortest form that holds it. -/
def ShortestCount : Bytes → Prop
  | [] => False
  | first :: rest =>
      first.toNat < 0xFD ∨ (first.toNat = 0xFD ∧ 0xFD ≤ readLe (rest.take 2)) ∨
        (first.toNat = 0xFE ∧ 0xFFFF < readLe (rest.take 4)) ∨
        (first.toNat = 0xFF ∧ 0xFFFFFFFF < readLe (rest.take 8))

/-- What is read under a count that matches it, however the count is written. -/
theorem deserializeHeaders_of_split {payload : Bytes} {headers : List BlockHeader}
    (parted : splitLength payload = (headers.length, headers.flatMap serializeHeader))
    (one : headers ≠ []) (few : headers.length ≤ 2000) :
    decode deserializeHeaders payload =
      some (some (headers.map BlockHeader.sent, payload.length)) := by
  have positive : 0 < headers.length := List.length_pos_iff.mpr one
  have body := length_flatMap headers fun header _ => length_serializeHeader header
  have filled : ¬payload.isEmpty = true := by
    intro none
    rw [List.isEmpty_iff.mp none] at parted
    exact absurd (Prod.mk.inj parted).1 positive.ne
  apply decode_of_ends
  rw [deserializeHeaders, if_neg filled, ends_bind]
  refine (readVarInt_ends (At.start payload)).mono ?_
  rintro count moved ⟨counted, place⟩
  rw [parted] at counted place
  obtain rfl : count = headers.length := counted
  change At payload moved (headers.flatMap serializeHeader) at place
  have whole : At payload moved (headers.flatMap serializeHeader ++ []) := by
    rwa [List.append_nil]
  have fields := Reads.many headers (fun header _ => length_serializeHeader header)
    fun header _ => reads_compactHeader payload header
  have total := place.length
  have width : kCompactHeaderBytes = 120 := rfl
  rw [if_neg (by omega), ends_bind, ends_get, if_neg (by omega), ends_bind, fields.ends whole,
    ends_bind, ends_get, if_neg (by omega), ends_pure, total]

/-- The first byte of a written count. -/
def countMarker (value : ℕ) : ℕ :=
  if value < 0xFD then value else if value ≤ 0xFFFF then 0xFD
  else if value ≤ 0xFFFFFFFF then 0xFE else 0xFF

theorem head_writeVarInt (value : ℕ) :
    ∃ tail, writeVarInt value = UInt8.ofNat (countMarker value) :: tail := by
  unfold writeVarInt countMarker
  split
  · exact ⟨[], rfl⟩
  split
  · exact ⟨_, rfl⟩
  split
  · exact ⟨_, rfl⟩
  · exact ⟨_, rfl⟩

theorem countMarker_lt (value : ℕ) : countMarker value < 256 := by
  unfold countMarker
  split
  · omega
  split
  · decide
  split
  · decide
  · decide

/-- The forms of a count that is not zero. -/
theorem splitLength_forms {first : UInt8} {rest : Bytes}
    (counted : (splitLength (first :: rest)).1 ≠ 0) :
    (first.toNat < 0xFD ∧ splitLength (first :: rest) = (first.toNat, rest)) ∨
    ∃ width ∈ [(0xFD, 2), (0xFE, 4), (0xFF, 8)], first.toNat = width.1 ∧ width.2 ≤ rest.length ∧
      splitLength (first :: rest) = (readLe (rest.take width.2), rest.drop width.2) := by
  rw [splitLength] at counted ⊢
  split
  next small => exact Or.inl ⟨small, rfl⟩
  next large =>
    rw [if_neg large] at counted
    refine Or.inr ?_
    split
    next two => exact ⟨(0xFD, 2), by simp, two.1, two.2, rfl⟩
    next notTwo =>
      rw [if_neg notTwo] at counted
      split
      next four => exact ⟨(0xFE, 4), by simp, four.1, four.2, rfl⟩
      next notFour =>
        rw [if_neg notFour] at counted
        split
        next eight => exact ⟨(0xFF, 8), by simp, eight.1, eight.2, rfl⟩
        next notEight =>
          rw [if_neg notEight] at counted
          exact absurd rfl counted

/-- A number read from some bytes is written as them. -/
theorem leBytes_take {rest : Bytes} {width : ℕ} (long : width ≤ rest.length) :
    leBytes width (readLe (rest.take width)) = rest.take width ∧
      readLe (rest.take width) < 256 ^ width := by
  have length : (rest.take width).length = width := List.length_take_of_le long
  have kept := leBytes_readLe (rest.take width)
  have bound := readLe_lt (rest.take width)
  rw [length] at kept bound
  exact ⟨kept, bound⟩

/-- A marked count is written back exactly when it is not below what its form is for. -/
theorem marked_split_iff {first : UInt8} {rest : Bytes} {marker width least : ℕ}
    (mark : first.toNat = marker) (long : width ≤ rest.length)
    (form : ∀ value, least ≤ value → value < 256 ^ width →
      writeVarInt value = UInt8.ofNat marker :: leBytes width value)
    (low : ∀ value, countMarker value = marker → value < 256 ^ width → least ≤ value) :
    writeVarInt (readLe (rest.take width)) ++ rest.drop width = first :: rest ↔
      least ≤ readLe (rest.take width) := by
  obtain ⟨written, bound⟩ := leBytes_take long
  constructor
  · intro same
    obtain ⟨tail, cons⟩ := head_writeVarInt (readLe (rest.take width))
    rw [cons, List.cons_append] at same
    have head := congrArg UInt8.toNat (List.cons.inj same).1
    rw [UInt8.toNat_ofNat_of_lt' (countMarker_lt _), mark] at head
    exact low _ head bound
  · intro enough
    rw [form _ enough bound, written, ← mark, UInt8.ofNat_toNat, List.cons_append,
      List.take_append_drop]

/-- A shortest count is written back, and a longer one is not. -/
theorem writeVarInt_split_iff {payload : Bytes} (counted : (splitLength payload).1 ≠ 0) :
    writeVarInt (splitLength payload).1 ++ (splitLength payload).2 = payload ↔
      ShortestCount payload := by
  cases payload with
  | nil => exact absurd rfl counted
  | cons first rest =>
      rcases splitLength_forms counted with ⟨small, parted⟩ | ⟨width, listed, marker, long, parted⟩
      · rw [parted]
        refine iff_of_true ?_ (Or.inl small)
        rw [writeVarInt, if_pos small, UInt8.ofNat_toNat]
        rfl
      · rw [parted, ShortestCount]
        simp only [List.mem_cons, List.not_mem_nil, or_false] at listed
        rcases listed with rfl | rfl | rfl
        · rw [@marked_split_iff first rest 0xFD 2 0xFD marker long]
          · omega
          · intro value enough bound
            rw [writeVarInt, if_neg (by omega), if_pos (by omega)]
            rfl
          · intro value marked bound
            unfold countMarker at marked
            split at marked <;> omega
        · rw [@marked_split_iff first rest 0xFE 4 0x10000 marker long]
          · omega
          · intro value enough bound
            rw [writeVarInt, if_neg (by omega), if_neg (by omega), if_pos (by omega)]
            rfl
          · intro value marked bound
            unfold countMarker at marked
            split at marked
            · omega
            · split at marked <;> omega
        · rw [@marked_split_iff first rest 0xFF 8 0x100000000 marker long]
          · omega
          · intro value enough bound
            rw [writeVarInt, if_neg (by omega), if_neg (by omega), if_neg (by omega)]
            rfl
          · intro value marked bound
            unfold countMarker at marked
            split at marked
            · omega
            · split at marked
              · omega
              · split at marked <;> omega

/-- The headers of an accepted payload are written back behind the shortest form of the
count, so the payload comes back exactly when it has that form. -/
theorem headers_canonical_iff {payload : Bytes} {headers : List BlockHeader} {consumed : Nat}
    (decoded : decode deserializeHeaders payload = some (some (headers, consumed))) :
    serializeHeaders headers = writeVarInt headers.length ++ (splitLength payload).2 ∧
      (serializeHeaders headers = payload ↔ ShortestCount payload) := by
  obtain ⟨counted, most, sized⟩ := deserializeHeaders_sized decoded
  obtain ⟨found, length, body⟩ := exists_headers sized
  have parted : splitLength payload = (found.length, found.flatMap serializeHeader) := by
    rw [length, body]
  have few : found.length ≤ 2000 := length ▸ most
  have one : found ≠ [] := List.length_pos_iff.mp (by omega)
  have read := (deserializeHeaders_of_split parted one few).symm.trans decoded
  have same : found.map BlockHeader.sent = headers :=
    (Prod.mk.inj (Option.some.inj (Option.some.inj read))).1
  have written : serializeHeaders headers =
      writeVarInt headers.length ++ (splitLength payload).2 := by
    rw [serializeHeaders_eq, ← same, flatMap_sent, body]
  refine ⟨written, ?_⟩
  rw [written, ← same, List.length_map, length]
  exact writeVarInt_split_iff counted

/-- A header of zeros. -/
def blankHeader : BlockHeader :=
  { version := 0, prevBlockHash := Digest.zero, merkleRoot := Digest.zero, timestamp := 0
    difficulty := 0, nonce := 0, hash := Digest.zero, height := 0 }

/-- One header of zeros, behind a count of one byte. -/
theorem headers_canonical_one :
    decode deserializeHeaders (1 :: List.replicate 120 0) =
        some (some ([blankHeader], 121)) ∧
      serializeHeaders [blankHeader] = 1 :: List.replicate 120 0 := by
  have decoded : decode deserializeHeaders (1 :: List.replicate 120 0) =
      some (some ([blankHeader], 121)) := by
    decide +kernel
  exact ⟨decoded, (headers_canonical_iff decoded).2.mpr (Or.inl (by decide))⟩

/-- The same header behind a count of three bytes is read, and two bytes are missing when it
is written again. -/
theorem long_count_shortened :
    ¬∀ (payload : Bytes) (headers : List BlockHeader) (consumed : Nat),
        decode deserializeHeaders payload = some (some (headers, consumed)) →
          serializeHeaders headers = payload := by
  intro canonical
  have kept := canonical (0xFD :: 1 :: 0 :: List.replicate 120 0) [blankHeader] 123
    (by decide +kernel)
  exact absurd kept (by decide +kernel)

end PiSecure
