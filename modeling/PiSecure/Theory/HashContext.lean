import PiSecure.General.Sha256Blocks
import PiSecure.Model.HashContext

/-! # The tree's SHA-256 is SHA-256

The words of the compression are the words of the standard, whatever way a message is
split the context holds its compressed blocks and the rest of it, and the padding stays
inside its 72 bytes.
-/

namespace PiSecure

namespace Sha256Ctx

/-! ## Words -/

/-- Two shifts that fill each other are a rotation. -/
theorem toNat_rotate (x : UInt32) {right left : UInt32} {count : ℕ}
    (rightCount : right.toNat = count)
    (leftCount : left.toNat = 32 - count) (positive : 0 < count) (short : count < 32) :
    (x >>> right ||| x <<< left).toNat = Sha256.rotr x.toNat count := by
  have low : x.toNat >>> count < 2 ^ 32 := by
    rw [Nat.shiftRight_eq_div_pow]
    exact lt_of_le_of_lt (Nat.div_le_self _ _) x.toNat_lt
  rw [UInt32.toNat_or, UInt32.toNat_shiftRight, UInt32.toNat_shiftLeft, rightCount, leftCount,
    Nat.mod_eq_of_lt short, Nat.mod_eq_of_lt (by omega : 32 - count < 32), Sha256.rotr,
    Nat.or_mod_two_pow, Nat.mod_eq_of_lt low]

theorem toNat_shift (x : UInt32) {right : UInt32} {count : ℕ} (rightCount : right.toNat = count)
    (short : count < 32) : (x >>> right).toNat = x.toNat >>> count := by
  rw [UInt32.toNat_shiftRight, rightCount, Nat.mod_eq_of_lt short]

theorem toNat_smallSigma0 (x : UInt32) :
    ((x >>> 7 ||| x <<< 25) ^^^ (x >>> 18 ||| x <<< 14) ^^^ (x >>> 3)).toNat =
      Sha256.smallSigma0 x.toNat := by
  rw [UInt32.toNat_xor, UInt32.toNat_xor, toNat_rotate x rfl rfl (by decide) (by decide),
    toNat_rotate x rfl rfl (by decide) (by decide), toNat_shift x rfl (by decide)]
  rfl

theorem toNat_smallSigma1 (x : UInt32) :
    ((x >>> 17 ||| x <<< 15) ^^^ (x >>> 19 ||| x <<< 13) ^^^ (x >>> 10)).toNat =
      Sha256.smallSigma1 x.toNat := by
  rw [UInt32.toNat_xor, UInt32.toNat_xor, toNat_rotate x rfl rfl (by decide) (by decide),
    toNat_rotate x rfl rfl (by decide) (by decide), toNat_shift x rfl (by decide)]
  rfl

theorem toNat_bigSigma0 (x : UInt32) :
    ((x >>> 2 ||| x <<< 30) ^^^ (x >>> 13 ||| x <<< 19) ^^^ (x >>> 22 ||| x <<< 10)).toNat =
      Sha256.bigSigma0 x.toNat := by
  rw [UInt32.toNat_xor, UInt32.toNat_xor, toNat_rotate x rfl rfl (by decide) (by decide),
    toNat_rotate x rfl rfl (by decide) (by decide), toNat_rotate x rfl rfl (by decide) (by decide)]
  rfl

theorem toNat_bigSigma1 (x : UInt32) :
    ((x >>> 6 ||| x <<< 26) ^^^ (x >>> 11 ||| x <<< 21) ^^^ (x >>> 25 ||| x <<< 7)).toNat =
      Sha256.bigSigma1 x.toNat := by
  rw [UInt32.toNat_xor, UInt32.toNat_xor, toNat_rotate x rfl rfl (by decide) (by decide),
    toNat_rotate x rfl rfl (by decide) (by decide), toNat_rotate x rfl rfl (by decide) (by decide)]
  rfl

theorem toNat_complement (x : UInt32) : (~~~x).toNat = x.toNat ^^^ 0xffffffff := by
  have whole : ~~~x = x ^^^ 0xffffffff := (UInt32.xor_neg_one).symm
  rw [whole, UInt32.toNat_xor]
  rfl

theorem toNat_choose (x y z : UInt32) :
    ((x &&& y) ^^^ (~~~x &&& z)).toNat = Sha256.choose x.toNat y.toNat z.toNat := by
  rw [UInt32.toNat_xor, UInt32.toNat_and, UInt32.toNat_and, toNat_complement]
  rfl

theorem toNat_majority (x y z : UInt32) :
    ((x &&& y) ^^^ (x &&& z) ^^^ (y &&& z)).toNat =
      Sha256.majority x.toNat y.toNat z.toNat := by
  rw [UInt32.toNat_xor, UInt32.toNat_xor, UInt32.toNat_and, UInt32.toNat_and, UInt32.toNat_and]
  rfl

/-! ## Compression -/

/-- The registers as the words of the standard. -/
def Registers.words (r : Registers) : Sha256.State :=
  ⟨r.a.toNat, r.b.toNat, r.c.toNat, r.d.toNat, r.e.toNat, r.f.toNat, r.g.toNat, r.h.toNat⟩

/-- One turn of the loop is one round. -/
theorem words_mainLoop (w : List UInt32) (r : Registers) (i : ℕ) :
    (mainLoop w r i).words =
      Sha256.round r.words (roundTable.getD i 0).toNat (w.getD i 0).toNat := by
  simp only [mainLoop, Registers.words, Sha256.round, UInt32.toNat_add, toNat_bigSigma0,
    toNat_bigSigma1, toNat_choose, toNat_majority, Nat.add_mod_mod, Nat.mod_add_mod]

theorem toNat_getD (words : List UInt32) (i : ℕ) :
    (words.getD i 0).toNat = (words.map UInt32.toNat).getD i 0 := by
  rw [List.getD_eq_getElem?_getD, List.getD_eq_getElem?_getD, List.getElem?_map]
  cases words[i]? <;> rfl

/-- A schedule that grows by one word grows by the next word of its last sixteen. -/
theorem toNat_expandSchedule {w : List UInt32} (count : ℕ) {window : List Nat}
    (sixteen : window.length = 16)
    (so : w.map UInt32.toNat = Sha256.extended count window) :
    (expandSchedule w).map UInt32.toNat = Sha256.extended (count + 1) window := by
  have present : window ≠ [] := List.length_pos_iff.mp (by omega)
  have length : w.length = count + 16 := by
    have same := congrArg List.length so
    rwa [List.length_map, Sha256.extended, List.length_append, Sha256.length_scheduleFrom,
      Sha256.length_iterate_slide count present, sixteen] at same
  have word (index : ℕ) : (w.getD (count + index) 0).toNat =
      (Sha256.slide^[count] window).getD index 0 := by
    rw [← Sha256.extended_getD, ← so, toNat_getD]
  rw [Sha256.extended_succ count present, ← so]
  simp only [expandSchedule, List.map_append, List.map_cons, List.map_nil]
  congr 2
  rw [UInt32.toNat_add, UInt32.toNat_add, UInt32.toNat_add, toNat_smallSigma0, toNat_smallSigma1,
    length, show count + 16 - 16 = count + 0 by omega, show count + 16 - 7 = count + 9 by omega,
    show count + 16 - 15 = count + 1 by omega, show count + 16 - 2 = count + 14 by omega,
    word, word, word, word, Sha256.nextWord]
  omega

/-- Big-endian words of a byte string, read one by one. -/
theorem toNat_readBe32 (a b c d : UInt8) (rest : Bytes) :
    (readBe32 (a :: b :: c :: d :: rest)).toNat =
      a.toNat <<< 24 ||| b.toNat <<< 16 ||| c.toNat <<< 8 ||| d.toNat := by
  have shifted (byte : UInt8) {left : UInt32} {count : ℕ} (leftCount : left.toNat = count)
      (fits : count ≤ 24) : (byte.toUInt32 <<< left).toNat = byte.toNat <<< count := by
    have small : byte.toNat * 2 ^ count < 2 ^ 8 * 2 ^ 24 :=
      Nat.mul_lt_mul_of_lt_of_le byte.toNat_lt (Nat.pow_le_pow_right (by decide) fits) (by decide)
    rw [UInt32.toNat_shiftLeft, leftCount,
      Nat.mod_eq_of_lt (show count < 32 by omega), UInt8.toNat_toUInt32,
      Nat.shiftLeft_eq]
    exact Nat.mod_eq_of_lt small
  change (a.toUInt32 <<< 24 ||| b.toUInt32 <<< 16 ||| c.toUInt32 <<< 8 ||| d.toUInt32).toNat = _
  rw [UInt32.toNat_or, UInt32.toNat_or, UInt32.toNat_or, shifted a rfl (by decide),
    shifted b rfl (by decide), shifted c rfl (by decide), UInt8.toNat_toUInt32]
  rfl

theorem four_bytes {block : Bytes} (long : 4 ≤ block.length) :
    ∃ a b c d rest, block = a :: b :: c :: d :: rest := by
  rcases block with _ | ⟨a, _ | ⟨b, _ | ⟨c, _ | ⟨d, rest⟩⟩⟩⟩
  case cons.cons.cons.cons => exact ⟨a, b, c, d, rest, rfl⟩
  all_goals
    simp only [List.length_cons, List.length_nil] at long
    omega

theorem words_eq_readBe32 {count : ℕ} {block : Bytes} (size : block.length = 4 * count) :
    ((List.range count).map fun i => (readBe32 (block.drop (i * 4))).toNat) =
      Sha256.words block := by
  induction count generalizing block with
  | zero =>
      rw [List.length_eq_zero_iff.mp size]
      rfl
  | succ count ih =>
      obtain ⟨a, b, c, d, rest, rfl⟩ := four_bytes (show 4 ≤ block.length by omega)
      have shorter : rest.length = 4 * count := by
        simp only [List.length_cons] at size
        omega
      rw [List.range_succ_eq_map, List.map_cons, List.map_map, Sha256.words, ← ih shorter,
        ← toNat_readBe32 a b c d rest]
      refine List.cons_eq_cons.mpr ⟨by rw [Nat.zero_mul, List.drop_zero], ?_⟩
      refine List.map_congr_left fun i _ => ?_
      have places : Nat.succ i * 4 = i * 4 + 4 := Nat.succ_mul i 4
      simp only [Function.comp_apply, places, List.drop_succ_cons]

theorem roundTable_eq : roundTable.map UInt32.toNat = Sha256.roundConstants := by
  rfl

/-- The whole schedule of a block. -/
theorem toNat_messageSchedule {block : Bytes} (size : block.length = 64) :
    (messageSchedule block).map UInt32.toNat =
      Sha256.scheduleFrom 64 (Sha256.words block) := by
  have loaded : ((List.range 16).map fun i => readBe32 (block.drop (i * 4))).map UInt32.toNat =
      Sha256.words block := by
    rw [List.map_map]
    exact words_eq_readBe32 size
  have sixteen : (Sha256.words block).length = 16 := by
    rw [← loaded, List.length_map, List.length_map, List.length_range]
  have grown (count : ℕ) : (expandSchedule^[count]
      ((List.range 16).map fun i => readBe32 (block.drop (i * 4)))).map UInt32.toNat =
        Sha256.extended count (Sha256.words block) := by
    induction count with
    | zero => exact loaded
    | succ count ih =>
        rw [Function.iterate_succ_apply']
        exact toNat_expandSchedule count sixteen ih
  have present : Sha256.words block ≠ [] := List.length_pos_iff.mp (by omega)
  rw [messageSchedule, grown, Sha256.extended_eq_schedule 48 present, sixteen]

/-- Two lists side by side, by their indices. -/
theorem zip_eq_map_range {first second : List Nat} (same : first.length = second.length) :
    first.zip second =
      (List.range first.length).map fun i => (first.getD i 0, second.getD i 0) := by
  refine List.ext_getElem ?_ fun i low high => ?_
  · rw [List.length_zip, List.length_map, List.length_range, ← same, Nat.min_self]
  · rw [List.length_zip, ← same, Nat.min_self] at low
    rw [List.getElem_zip, List.getElem_map, List.getElem_range, List.getD_eq_getElem?_getD,
      List.getD_eq_getElem?_getD, List.getElem?_eq_getElem low,
      List.getElem?_eq_getElem (same ▸ low)]
    rfl

/-- The loop over indices is the pass over constants and words. -/
theorem words_foldl_mainLoop {w : List UInt32} (size : w.length = 64) (r : Registers) :
    ((List.range 64).foldl (mainLoop w) r).words =
      (Sha256.roundConstants.zip (w.map UInt32.toNat)).foldl
        (fun s entry => Sha256.round s entry.1 entry.2) r.words := by
  have constants : Sha256.roundConstants.length = 64 := rfl
  rw [zip_eq_map_range (by rw [List.length_map, size, constants]), List.foldl_map, constants]
  refine (List.foldl_hom Registers.words fun state i => ?_).symm
  rw [words_mainLoop, toNat_getD, toNat_getD, roundTable_eq]

theorem words_transform (state : Registers) {block : Bytes} (size : block.length = 64) :
    (transform state block).words = Sha256.compress state.words block := by
  have schedule := toNat_messageSchedule size
  have sixtyFour : (messageSchedule block).length = 64 := by
    have same := congrArg List.length schedule
    rwa [List.length_map, Sha256.length_scheduleFrom] at same
  have present : Sha256.words block ≠ [] := by
    obtain ⟨a, b, c, d, rest, rfl⟩ := four_bytes (show 4 ≤ block.length by omega)
    exact List.cons_ne_nil _ _
  have rounds := words_foldl_mainLoop sixtyFour state
  rw [schedule] at rounds
  have standard := Sha256.rounds_eq_foldl Sha256.roundConstants present state.words
  change _ = (Sha256.roundConstants.zip (Sha256.scheduleFrom 64 _)).foldl _ _ at standard
  rw [← standard] at rounds
  rw [Sha256.compress, ← rounds]
  simp only [transform, Registers.words, UInt32.toNat_add]

/-! ## The context -/

/-- The context has compressed the whole blocks of a message and holds the rest. -/
structure Holds (ctx : Sha256Ctx) (message : Bytes) : Prop where
  state : ctx.state.words =
    Sha256.compressBlocks (message.length / 64) message Sha256.initial
  bytes : ctx.bytes = UInt64.ofNat message.length
  buffer : ctx.buffer = message.drop (64 * (message.length / 64))

section Writes

variable {ctx : Sha256Ctx} {message chunk : Bytes}

theorem holds_empty : Holds empty [] := ⟨rfl, rfl, rfl⟩

theorem Holds.length (held : Holds ctx message) :
    message.length = 64 * (message.length / 64) + ctx.buffer.length := by
  rw [held.buffer, List.length_drop]
  omega

theorem Holds.bytes_append (held : Holds ctx message) (chunk : Bytes) :
    ctx.bytes + UInt64.ofNat chunk.length = UInt64.ofNat (message ++ chunk).length := by
  rw [held.bytes, List.length_append, UInt64.ofNat_add]

theorem Holds.buffer_append (held : Holds ctx message) (chunk : Bytes) :
    ctx.buffer ++ chunk = (message ++ chunk).drop (64 * (message.length / 64)) := by
  rw [held.buffer, List.drop_append_of_le_length (by omega)]

/-- A chunk that leaves room is kept. -/
theorem Holds.keep (held : Holds ctx message) (room : (ctx.buffer ++ chunk).length < 64) :
    Holds ⟨ctx.state, ctx.bytes + UInt64.ofNat chunk.length, ctx.buffer ++ chunk, room⟩
      (message ++ chunk) := by
  have length := held.length
  have blocks : (message ++ chunk).length / 64 = message.length / 64 := by
    rw [List.length_append] at room ⊢
    omega
  refine ⟨?_, held.bytes_append chunk, ?_⟩
  · rw [blocks, Sha256.compressBlocks_append _ _ _ (by omega)]
    exact held.state
  · rw [blocks]
    exact held.buffer_append chunk

/-- A chunk that fills the buffer completes a block. -/
theorem Holds.compress (held : Holds ctx message) (full : (ctx.buffer ++ chunk).length = 64) :
    Holds ⟨transform ctx.state (ctx.buffer ++ chunk), ctx.bytes + UInt64.ofNat chunk.length, [],
      by decide⟩ (message ++ chunk) := by
  have length := held.length
  have total : (message ++ chunk).length = 64 * (message.length / 64 + 1) := by
    rw [List.length_append] at full ⊢
    omega
  have blocks : (message ++ chunk).length / 64 = message.length / 64 + 1 := by
    rw [total]
    exact Nat.mul_div_cancel_left _ (by decide)
  have block := held.buffer_append chunk
  refine ⟨?_, held.bytes_append chunk, ?_⟩
  · rw [blocks, Sha256.compressBlocks_add, Sha256.compressBlocks_append _ _ _ (by omega), ← block,
      ← held.state, words_transform _ full]
    exact congrArg _ (List.take_of_length_le (Nat.le_of_eq full)).symm
  · rw [blocks, ← total, List.drop_length]

/-- What is written is held, however the loop cuts it. -/
theorem Holds.write (held : Holds ctx message) (data : Bytes) :
    Holds (ctx.write data) (message ++ data) := by
  generalize size : data.length = count
  induction count using Nat.strong_induction_on generalizing ctx message data with
  | _ count ih =>
      by_cases none : data = []
      · rw [Sha256Ctx.write, if_pos none, none, List.append_nil]
        exact held
      · have positive : 0 < data.length := List.length_pos_iff.mpr none
        have space := ctx.room
        have joined : message ++ data =
            message ++ data.take (64 - ctx.buffer.length) ++
            data.drop (64 - ctx.buffer.length) := by
          rw [List.append_assoc, List.take_append_drop]
        rw [Sha256Ctx.write, if_neg none, joined]
        refine ih _ ?_ ?_ _ rfl
        · rw [List.length_drop]
          omega
        · split
          next room => exact held.keep room
          next full =>
            refine held.compress (Nat.le_antisymm ?_ (Nat.not_lt.mp full))
            rw [List.length_append, List.length_take]
            omega

end Writes

/-- Successive writes hold the whole message. -/
theorem holds_writes (chunks : List Bytes) : Holds (chunks.foldl write empty) chunks.flatten := by
  have writesFrom : ∀ (chunks : List Bytes) (ctx : Sha256Ctx) (message : Bytes), Holds ctx message →
      Holds (chunks.foldl write ctx) (message ++ chunks.flatten) := by
    intro chunks
    induction chunks with
    | nil =>
        intro ctx message held
        rw [List.flatten_nil, List.append_nil]
        exact held
    | cons chunk chunks ih =>
        intro ctx message held
        rw [List.foldl_cons, List.flatten_cons, ← List.append_assoc]
        exact ih _ _ (held.write chunk)
  exact writesFrom chunks empty [] holds_empty

/-! ## The padding -/

/-- One byte of a word. -/
theorem toUInt8_and (val : UInt32) {right : UInt32} {count : ℕ} (rightCount : right.toNat = count)
    (short : count < 32) :
    (val >>> right &&& 0xff).toUInt8 = UInt8.ofNat (val.toNat >>> count) := by
  have mask (number : ℕ) : number &&& 255 = number % 2 ^ 8 :=
    Nat.and_two_pow_sub_one_eq_mod number 8
  rw [← UInt8.toNat_inj, UInt32.toNat_toUInt8, UInt32.toNat_and, toNat_shift val rightCount short,
    UInt8.toNat_ofNat']
  change (_ &&& 255) % _ = _
  rw [mask, Nat.mod_mod]

theorem writeBe32_eq (val : UInt32) : writeBe32 val = Sha256.wordBytes val.toNat := by
  have last : (val &&& 0xff).toUInt8 = UInt8.ofNat val.toNat := by
    have shifted := @toUInt8_and val 0 0 rfl (by decide)
    rwa [UInt32.shiftRight_zero] at shifted
  rw [writeBe32, toUInt8_and val rfl (by decide), toUInt8_and val rfl (by decide),
    toUInt8_and val rfl (by decide), last]
  rfl

/-- Only the low 32 bits of a number are written. -/
theorem wordBytes_mod (number : ℕ) :
    Sha256.wordBytes (number % 2 ^ 32) = Sha256.wordBytes number := by
  have byte (count : ℕ) (fits : count ≤ 24) :
      UInt8.ofNat ((number % 2 ^ 32) >>> count) = UInt8.ofNat (number >>> count) := by
    rw [← UInt8.toNat_inj, UInt8.toNat_ofNat', UInt8.toNat_ofNat', Nat.shiftRight_eq_div_pow,
      Nat.shiftRight_eq_div_pow]
    have split : 2 ^ 32 = 2 ^ count * 2 ^ (32 - count) := by
      rw [← Nat.pow_add, Nat.add_sub_cancel' (by omega)]
    have divides : 2 ^ 8 ∣ 2 ^ (32 - count) := Nat.pow_dvd_pow 2 (by omega)
    rw [split, Nat.mod_mul_right_div_self, Nat.mod_mod_of_dvd _ divides]
  have last : UInt8.ofNat (number % 2 ^ 32) = UInt8.ofNat number := byte 0 (by decide)
  rw [Sha256.wordBytes, Sha256.wordBytes, byte 24 (by decide), byte 16 (by decide),
    byte 8 (by decide), last]

theorem writeBe64_eq (val : UInt64) :
    writeBe64 val = Sha256.wordBytes (val.toNat >>> 32) ++ Sha256.wordBytes val.toNat := by
  have mask (number : ℕ) : number &&& 0xffffffff = number % 2 ^ 32 :=
    Nat.and_two_pow_sub_one_eq_mod number 32
  have half (word : UInt64) : (word &&& 0xffffffff).toUInt32.toNat = word.toNat % 2 ^ 32 := by
    rw [UInt64.toNat_toUInt32, UInt64.toNat_and]
    change (_ &&& 0xffffffff) % _ = _
    rw [mask, Nat.mod_mod]
  have high : (val >>> 32).toNat = val.toNat >>> 32 := UInt64.toNat_shiftRight val 32
  rw [writeBe64, writeBe32_eq, writeBe32_eq, half, half, wordBytes_mod, wordBytes_mod, high]

theorem storeAt_front (front : Bytes) {bytes rest : Bytes} (inside : bytes.length ≤ rest.length) :
    storeAt (front ++ rest) front.length bytes =
      some (front ++ bytes ++ rest.drop bytes.length) := by
  rw [storeAt, if_pos (by rw [List.length_append]; omega), List.take_left, List.drop_append,
    List.drop_eq_nil_of_le (by omega), Nat.add_sub_cancel_left, List.nil_append]

theorem loadFront_front (front rest : Bytes) :
    loadFront (front ++ rest) front.length = some front := by
  rw [loadFront, if_pos (by rw [List.length_append]; omega), List.take_left]

/-- The zeros between the marker and the length. -/
def padZeros (message : Bytes) : Bytes := List.replicate ((119 - message.length % 64) % 64) 0

/-- The padding of a message: the marker, zeros and the length in bits. -/
def padding (message : Bytes) : Bytes :=
  ([0x80] : Bytes) ++ padZeros message ++
    (Sha256.wordBytes ((message.length * 8) >>> 32) ++ Sha256.wordBytes (message.length * 8))

theorem append_padding (message : Bytes) : message ++ padding message = Sha256.pad message := by
  simp only [padding, padZeros, Sha256.pad, List.append_assoc]

theorem length_padding (message : Bytes) :
    (padding message).length = (119 - message.length % 64) % 64 + 9 := by
  have word (number : ℕ) : (Sha256.wordBytes number).length = 4 := rfl
  rw [padding, padZeros, List.length_append, List.length_append, List.length_append, word, word,
    List.length_replicate, List.length_singleton]
  omega

section Padding

variable {ctx : Sha256Ctx} {message : Bytes}

/-- The length that `finalize` pads to is the zeros of the standard and the marker. -/
theorem toNat_padlen (held : Holds ctx message) (short : message.length < 2 ^ 61) :
    (if ctx.bytes % 64 < 56 then 56 - ctx.bytes % 64 else 120 - ctx.bytes % 64).toNat =
      (119 - message.length % 64) % 64 + 1 := by
  have remainder : (ctx.bytes % 64).toNat = message.length % 64 := by
    rw [UInt64.toNat_mod, held.bytes, UInt64.toNat_ofNat_of_lt' (by change _ < 2 ^ 64; omega)]
    rfl
  have below : message.length % 64 < 64 := Nat.mod_lt _ (by decide)
  split
  next few =>
    have less : message.length % 64 < 56 := by
      rw [← remainder]
      exact UInt64.lt_iff_toNat_lt.mp few
    rw [UInt64.toNat_sub_of_le _ _ (UInt64.le_of_lt few), remainder]
    change 56 - _ = _
    omega
  next many =>
    have most : 56 ≤ message.length % 64 := by
      rw [← remainder]
      exact UInt64.le_iff_toNat_le.mp (UInt64.not_lt.mp many)
    rw [UInt64.toNat_sub_of_le _ _
      (UInt64.le_iff_toNat_le.mpr (by rw [remainder]; change _ ≤ 120; omega)),
      remainder]
    change 120 - _ = _
    omega

theorem finalize_eq (held : Holds ctx message) (short : message.length < 2 ^ 61)
    (pad : { bytes : Bytes // bytes.length = 72 }) :
    ctx.finalize pad = some (Sha256.digest message) := by
  have padlen := toNat_padlen held short
  have below : (119 - message.length % 64) % 64 < 64 := Nat.mod_lt _ (by decide)
  have bits : (ctx.bytes * 8).toNat = message.length * 8 := by
    rw [UInt64.toNat_mul, held.bytes, UInt64.toNat_ofNat_of_lt' (by change _ < 2 ^ 64; omega)]
    exact Nat.mod_eq_of_lt (by change _ * 8 < _; omega)
  unfold finalize
  generalize (if ctx.bytes % 64 < 56 then 56 - ctx.bytes % 64 else 120 - ctx.bytes % 64) = len
    at padlen
  have zeros : (len - 1).toNat = (119 - message.length % 64) % 64 := by
    rw [UInt64.toNat_sub_of_le _ _
      (UInt64.le_iff_toNat_le.mpr (by rw [padlen]; change 1 ≤ _; omega)),
      padlen]
    rfl
  have tail : (len + 8).toNat = (padding message).length := by
    rw [UInt64.toNat_add, padlen, length_padding]
    exact Nat.mod_eq_of_lt (by change _ + 8 < _; omega)
  obtain ⟨array, size⟩ := pad
  have width : (padZeros message).length = (119 - message.length % 64) % 64 := List.length_replicate
  have marked : storeAt array 0 [0x80] = some ([0x80] ++ array.drop 1) :=
    storeAt_front [] (by rw [size]; decide)
  have cleared : storeAt ([0x80] ++ array.drop 1) 1 (List.replicate (len - 1).toNat 0) =
      some ([0x80] ++ padZeros message ++ (array.drop 1).drop (padZeros message).length) := by
    have stored := @storeAt_front [0x80] (padZeros message) (array.drop 1) (by
      rw [width, List.length_drop, size]
      omega)
    rw [zeros]
    exact stored
  have measured : storeAt ([0x80] ++ padZeros message ++
      (array.drop 1).drop (padZeros message).length) len.toNat (writeBe64 (ctx.bytes * 8)) =
        some (padding message ++ ((array.drop 1).drop (padZeros message).length).drop 8) := by
    have front : ([0x80] ++ padZeros message : Bytes).length = len.toNat := by
      rw [List.length_append, width, padlen, List.length_singleton, Nat.add_comm]
    have stored := @storeAt_front ([0x80] ++ padZeros message) (writeBe64 (ctx.bytes * 8))
      ((array.drop 1).drop (padZeros message).length) (by
        rw [writeBe64_eq, List.length_drop, List.length_drop, size, width]
        change 8 ≤ _
        omega)
    rw [front] at stored
    rw [stored, writeBe64_eq, bits]
    rfl
  have finished : Holds (ctx.write (padding message)) (Sha256.pad message) := by
    rw [← append_padding]
    exact held.write _
  simp only [Option.bind_eq_bind, marked, Option.bind_some, cleared, measured, tail,
    loadFront_front, Sha256.digest, ← finished.state, writeBe32_eq]
  rfl

end Padding

theorem sha256_eq {message : Bytes} (short : message.length < 2 ^ 61)
    (pad : { bytes : Bytes // bytes.length = 72 }) :
    sha256 message pad = some (Sha256.digest message) :=
  finalize_eq (holds_empty.write message) short pad

/-- However a message is cut into writes, the digest is the one of the standard, and no
access of the padding leaves its 72 bytes. -/
theorem finalize_writes (chunks : List Bytes) (short : chunks.flatten.length < 2 ^ 61)
    (pad : { bytes : Bytes // bytes.length = 72 }) :
    (chunks.foldl write empty).finalize pad = some (Sha256.digest chunks.flatten) :=
  finalize_eq (holds_writes chunks) short pad

/-- Three bytes in two writes. -/
theorem finalize_writes_abc :
    (([[97], [98, 99]] : List Bytes).foldl write empty).finalize
        ⟨List.replicate 72 255, List.length_replicate⟩ =
      some (Sha256.digest ([[97], [98, 99]] : List Bytes).flatten) :=
  finalize_writes [[97], [98, 99]] (by decide) ⟨List.replicate 72 255, List.length_replicate⟩

end Sha256Ctx

end PiSecure
