import Mathlib.Logic.Function.Iterate
import PiSecure.Model.Host

/-! # PiHash

The proof-of-work digests: the header preimage and its two hashes in
`chain_rpc.cpp`, and the mixing of `pihash.cpp` that the second one ends with.
-/

namespace PiSecure

/-- `header_preimage`. -/
def headerPreimage (domain : Text) (version : Nat) (prev merkle : Digest) (timestamp : UInt64)
    (difficulty : UInt32) (nonce : UInt64) (model : Text) (serialCommitment : Digest) : Bytes :=
  domain.bytes ++ u32Bytes version ++ prev.bytes ++ merkle.bytes ++ u64Bytes timestamp.toNat ++
    u32Bytes difficulty.toNat ++ u64Bytes nonce.toNat ++ u16Bytes model.size ++ model.bytes ++
    serialCommitment.bytes

/-- The bytes of the buffer of `PiHash::MemoryHardMix`, which is capped at 1 MiB. -/
def memoryBytes : Nat := 1024 * 1024

/-- `PiHash::MemoryHardMix`: the hash of a buffer filled with hashes. -/
def memoryHardMix (host : Host) (preimage : Bytes) (nonce : UInt32) : Digest :=
  let chunk (index : Nat) : Bytes :=
    (host.sha256 (preimage ++ u32Bytes nonce.toNat ++ u64Bytes (32 * index))).bytes
  host.sha256 ((List.range (memoryBytes / 32)).flatMap chunk)

/-- One byte of the mixing pass of `PiHash::CpuOptimizedFinalize`. -/
def mixByte (state : Bytes) (index : Nat) : Bytes :=
  let a := state.getD index 0
  let b := state.getD ((index + 1) % state.length) 0
  let c := state.getD ((index + 2) % state.length) 0
  let mixed := (a + b + c) * 7 + 3
  state.set index (mixed ^^^ (mixed >>> 4))

/-- One group of four bytes of `PiHash::ArmDiffusion`. -/
def diffuseGroup (state : Bytes) (group : Nat) : Bytes :=
  let i := 4 * group
  let a := state.getD i 0 + state.getD (i + 1) 0
  let c := state.getD (i + 2) 0 + state.getD (i + 3) 0
  let a' := a ^^^ c
  let c' := a ^^^ c
  let b := state.getD (i + 1) 0 + c'
  let d := state.getD (i + 3) 0 + a'
  (((state.set i a').set (i + 1) b).set (i + 2) c').set (i + 3) d

/-- `PiHash::ArmDiffusion`. -/
def armDiffusion (state : Bytes) : Bytes :=
  (List.range (state.length / 4)).foldl diffuseGroup state

/-- One round of `PiHash::CpuOptimizedFinalize`. -/
def finalizeRound (state : Bytes) : Bytes :=
  armDiffusion ((List.range state.length).foldl mixByte state)

/-- `PiHash::CpuOptimizedFinalize`. -/
def cpuOptimizedFinalize (rounds : Nat) (memoryHash : Bytes) : Bytes :=
  Nat.iterate finalizeRound rounds memoryHash

/-- `PiHash::MixFinalize` of the one-round hasher that validation builds. -/
def mixFinalize (host : Host) (preimage : Bytes) (nonceLow : UInt32) : Bytes :=
  cpuOptimizedFinalize 1 (memoryHardMix host preimage nonceLow).bytes

section Digests

variable (host : Host) (version : Nat) (prev merkle : Digest) (timestamp : UInt64)
  (difficulty : UInt32) (nonce : UInt64) (model : Text) (serialCommitment : Digest)

/-- `pihash_v1`: heights 1 to 4. -/
def pihashV1 : Digest :=
  host.sha256 (headerPreimage "PiHash1".toList version prev merkle timestamp difficulty nonce model
    serialCommitment)

/-- `pihash_v2`: height 5 and later. -/
def pihashV2 : Digest :=
  let preimage := headerPreimage "PiHash2".toList version prev merkle timestamp difficulty nonce
    model serialCommitment
  Digest.ofPrefix (mixFinalize host preimage nonce.toUInt32)

end Digests

end PiSecure
