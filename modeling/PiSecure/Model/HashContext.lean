import Mathlib.Logic.Function.Iterate
import PiSecure.General.Json

/-! # The SHA-256 of the tree

`sha256.cpp` with the byte order of `endian.h`: the buffered context, its
compression and its padding. The bytes of the message are there to be read.
-/

namespace PiSecure

/-! ## Byte order -/

/-- `read_be32`. -/
def readBe32 (data : Bytes) : UInt32 :=
  (data.getD 0 0).toUInt32 <<< 24 ||| (data.getD 1 0).toUInt32 <<< 16 |||
    (data.getD 2 0).toUInt32 <<< 8 ||| (data.getD 3 0).toUInt32

/-- `write_be32`, as the bytes it writes. -/
def writeBe32 (val : UInt32) : Bytes :=
  [(val >>> 24 &&& 0xff).toUInt8, (val >>> 16 &&& 0xff).toUInt8, (val >>> 8 &&& 0xff).toUInt8,
    (val &&& 0xff).toUInt8]

/-- `write_be64`, as the bytes it writes. -/
def writeBe64 (val : UInt64) : Bytes :=
  writeBe32 (val >>> 32 &&& 0xffffffff).toUInt32 ++ writeBe32 (val &&& 0xffffffff).toUInt32

namespace Sha256Ctx

/-- `K`. -/
def roundTable : List UInt32 :=
  [0x428a2f98, 0x71374491, 0xb5c0fbcf, 0xe9b5dba5, 0x3956c25b, 0x59f111f1, 0x923f82a4, 0xab1c5ed5,
   0xd807aa98, 0x12835b01, 0x243185be, 0x550c7dc3, 0x72be5d74, 0x80deb1fe, 0x9bdc06a7, 0xc19bf174,
   0xe49b69c1, 0xefbe4786, 0x0fc19dc6, 0x240ca1cc, 0x2de92c6f, 0x4a7484aa, 0x5cb0a9dc, 0x76f988da,
   0x983e5152, 0xa831c66d, 0xb00327c8, 0xbf597fc7, 0xc6e00bf3, 0xd5a79147, 0x06ca6351, 0x14292967,
   0x27b70a85, 0x2e1b2138, 0x4d2c6dfc, 0x53380d13, 0x650a7354, 0x766a0abb, 0x81c2c92e, 0x92722c85,
   0xa2bfe8a1, 0xa81a664b, 0xc24b8b70, 0xc76c51a3, 0xd192e819, 0xd6990624, 0xf40e3585, 0x106aa070,
   0x19a4c116, 0x1e376c08, 0x2748774c, 0x34b0bcb5, 0x391c0cb3, 0x4ed8aa4a, 0x5b9cca4f, 0x682e6ff3,
   0x748f82ee, 0x78a5636f, 0x84c87814, 0x8cc70208, 0x90befffa, 0xa4506ceb, 0xbef9a3f7, 0xc67178f2]

/-- The eight words of `state_`, or of the working variables. -/
structure Registers where
  a : UInt32
  b : UInt32
  c : UInt32
  d : UInt32
  e : UInt32
  f : UInt32
  g : UInt32
  h : UInt32

/-- `IV`. -/
def initialRegisters : Registers :=
  ⟨0x6a09e667, 0xbb67ae85, 0x3c6ef372, 0xa54ff53a, 0x510e527f, 0x9b05688c, 0x1f83d9ab, 0x5be0cd19⟩

/-! ## Compression -/

/-- One word more of the message schedule. -/
def expandSchedule (w : List UInt32) : List UInt32 :=
  let i := w.length
  let w15 := w.getD (i - 15) 0
  let w2 := w.getD (i - 2) 0
  let s0 := (w15 >>> 7 ||| w15 <<< 25) ^^^ (w15 >>> 18 ||| w15 <<< 14) ^^^ (w15 >>> 3)
  let s1 := (w2 >>> 17 ||| w2 <<< 15) ^^^ (w2 >>> 19 ||| w2 <<< 13) ^^^ (w2 >>> 10)
  w ++ [w.getD (i - 16) 0 + s0 + w.getD (i - 7) 0 + s1]

/-- The message schedule of a block. -/
def messageSchedule (block : Bytes) : List UInt32 :=
  Nat.iterate expandSchedule 48 ((List.range 16).map fun i => readBe32 (block.drop (i * 4)))

/-- One turn of the main loop of `Sha256Ctx::Transform`. -/
def mainLoop (w : List UInt32) (r : Registers) (i : Nat) : Registers :=
  let s1 := (r.e >>> 6 ||| r.e <<< 26) ^^^ (r.e >>> 11 ||| r.e <<< 21) ^^^
    (r.e >>> 25 ||| r.e <<< 7)
  let ch := (r.e &&& r.f) ^^^ (~~~r.e &&& r.g)
  let temp1 := r.h + s1 + ch + roundTable.getD i 0 + w.getD i 0
  let s0 := (r.a >>> 2 ||| r.a <<< 30) ^^^ (r.a >>> 13 ||| r.a <<< 19) ^^^
    (r.a >>> 22 ||| r.a <<< 10)
  let maj := (r.a &&& r.b) ^^^ (r.a &&& r.c) ^^^ (r.b &&& r.c)
  let temp2 := s0 + maj
  ⟨temp1 + temp2, r.a, r.b, r.c, r.d + temp1, r.e, r.f, r.g⟩

/-- `Sha256Ctx::Transform`. -/
def transform (state : Registers) (block : Bytes) : Registers :=
  let r := (List.range 64).foldl (mainLoop (messageSchedule block)) state
  ⟨state.a + r.a, state.b + r.b, state.c + r.c, state.d + r.d,
    state.e + r.e, state.f + r.f, state.g + r.g, state.h + r.h⟩

end Sha256Ctx

/-! ## The context -/

open Sha256Ctx in
/-- `Sha256Ctx`. Of `buffer_` only the first `buffer_len_` bytes are ever read, and it is
never left full. -/
structure Sha256Ctx where
  state : Registers
  bytes : UInt64
  buffer : Bytes
  room : buffer.length < 64

namespace Sha256Ctx

/-- The constructor. -/
def empty : Sha256Ctx := ⟨initialRegisters, 0, [], by decide⟩

/-- `Sha256Ctx::write`. -/
def write (ctx : Sha256Ctx) (data : Bytes) : Sha256Ctx :=
  if data = [] then ctx
  else
    let space := 64 - ctx.buffer.length
    let chunk := data.take space
    let buffer := ctx.buffer ++ chunk
    let bytes := ctx.bytes + UInt64.ofNat chunk.length
    let next : Sha256Ctx :=
      if room : buffer.length < 64 then ⟨ctx.state, bytes, buffer, room⟩
      else ⟨transform ctx.state buffer, bytes, [], by decide⟩
    write next (data.drop space)
termination_by data.length
decreasing_by
  have filled := ctx.room
  have positive : 0 < data.length := List.length_pos_iff.mpr ‹_›
  rw [List.length_drop]
  omega

/-- Bytes stored into an array from an index on, when all of them are inside it. -/
def storeAt (array : Bytes) (index : Nat) (bytes : Bytes) : Option Bytes :=
  if index + bytes.length ≤ array.length then
    some (array.take index ++ bytes ++ array.drop (index + bytes.length))
  else none

/-- Bytes read from the start of an array, when it has so many. -/
def loadFront (array : Bytes) (count : Nat) : Option Bytes :=
  if count ≤ array.length then some (array.take count) else none

/-- `Sha256Ctx::finalize`, with what the 72 bytes of `pad` held before. There is no result
when an access leaves `pad`. -/
def finalize (ctx : Sha256Ctx) (pad : { bytes : Bytes // bytes.length = 72 }) : Option Bytes := do
  let bits := ctx.bytes * 8
  let padlen := if ctx.bytes % 64 < 56 then 56 - ctx.bytes % 64 else 120 - ctx.bytes % 64
  let pad ← storeAt pad.val 0 [0x80]
  let pad ← storeAt pad 1 (List.replicate (padlen - 1).toNat 0)
  let pad ← storeAt pad padlen.toNat (writeBe64 bits)
  let tail ← loadFront pad (padlen + 8).toNat
  let state := (ctx.write tail).state
  pure (writeBe32 state.a ++ writeBe32 state.b ++ writeBe32 state.c ++ writeBe32 state.d ++
    writeBe32 state.e ++ writeBe32 state.f ++ writeBe32 state.g ++ writeBe32 state.h)

/-- `sha256`. -/
def sha256 (message : Bytes) (pad : { bytes : Bytes // bytes.length = 72 }) : Option Bytes :=
  (empty.write message).finalize pad

end Sha256Ctx

end PiSecure
