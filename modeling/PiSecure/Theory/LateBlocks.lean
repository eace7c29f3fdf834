import PiSecure.Theory.NameAgreement

/-! # Blocks with the second proof of work

PiHash hashes a buffer of a mebibyte, which is not computed here: a host may know
the hash of such a buffer by its first chunk. On this host are two blocks around
the height at which amounts change their unit, a flag in the first and a claim of
it in the second. What waits in the mempool does not matter for a block.
-/

namespace PiSecure

/-! ## Buffers -/

/-- The hash of a buffer among those of a table, by its first chunk. -/
def bufferHash (buffers : List (Bytes × Digest)) (message : Bytes) : Digest :=
  ((buffers.find? fun buffer => buffer.1 == message.take 32).map Prod.snd).getD Digest.zero

/-- A host that looks up the hashes of the buffers of PiHash. -/
def Host.withBuffers (host : Host) (buffers : List (Bytes × Digest)) : Host :=
  { host with
    sha256 := fun message =>
      if message.length < memoryBytes then host.sha256 message else bufferHash buffers message }

section Buffers

variable (host : Host) (buffers : List (Bytes × Digest))

theorem length_chunks (chunk : Nat → Digest) (count : Nat) :
    ((List.range count).flatMap fun index => (chunk index).bytes).length = 32 * count := by
  induction count with
  | zero => rfl
  | succ count ih =>
      rw [List.range_succ, List.flatMap_append, List.length_append, ih, List.flatMap_singleton,
        Digest.size_eq, Nat.mul_succ]

theorem take_chunks (chunk : Nat → Digest) {count : Nat} (filled : 0 < count) :
    ((List.range count).flatMap fun index => (chunk index).bytes).take 32 = (chunk 0).bytes := by
  obtain ⟨rest, rfl⟩ := Nat.exists_eq_succ_of_ne_zero (Nat.ne_of_gt filled)
  rw [List.range_succ_eq_map, List.flatMap_cons, List.take_left' (chunk 0).size_eq]

/-- The hash of a buffer is looked up by its first chunk. -/
theorem memoryHardMix_withBuffers (preimage : Bytes) (nonce : UInt32) :
    memoryHardMix (host.withBuffers buffers) preimage nonce =
      bufferHash buffers ((host.withBuffers buffers).sha256
        (preimage ++ u32Bytes nonce.toNat ++ u64Bytes 0)).bytes := by
  have size : 32 * (memoryBytes / 32) = memoryBytes := by decide
  have filled : 0 < memoryBytes / 32 := by decide
  unfold memoryHardMix
  dsimp only
  generalize memoryBytes / 32 = count at size filled ⊢
  let chunk := fun index =>
    (host.withBuffers buffers).sha256 (preimage ++ u32Bytes nonce.toNat ++ u64Bytes (32 * index))
  have long : ¬((List.range count).flatMap fun index => (chunk index).bytes).length <
      memoryBytes := by
    rw [length_chunks chunk, size]
    exact Nat.lt_irrefl _
  have looked : (host.withBuffers buffers).sha256
      ((List.range count).flatMap fun index => (chunk index).bytes) = bufferHash buffers
      ((List.range count).flatMap fun index => (chunk index).bytes) := if_neg long
  have front : (chunk 0).bytes.take 32 = (chunk 0).bytes :=
    List.take_of_length_le (Nat.le_of_eq (chunk 0).size_eq)
  rw [looked, bufferHash, take_chunks chunk filled, bufferHash]
  change _ = ((buffers.find? fun buffer => buffer.1 == (chunk 0).bytes.take 32).map Prod.snd).getD
    Digest.zero
  rw [front]

/-- The digest of a block from height 5 on, without its buffer. -/
def bufferedPihash (draft : Draft) (root : Digest) : Digest :=
  let fields := draft.fields
  let preimage := headerPreimage "PiHash2".toList 1 draft.prev root fields.timestamp
    fields.difficulty
    fields.nonce fields.model fields.serial
  Digest.ofPrefix (cpuOptimizedFinalize 1 (bufferHash buffers ((host.withBuffers buffers).sha256
    (preimage ++ u32Bytes fields.nonce.toUInt32.toNat ++ u64Bytes 0)).bytes).bytes)

theorem pihash_withBuffers {draft : Draft} (late : 5 ≤ draft.fields.height) (root : Digest) :
    draft.pihash (host.withBuffers buffers) root = bufferedPihash host buffers draft root := by
  unfold Draft.pihash
  dsimp only
  rw [if_pos late]
  unfold pihashV2 mixFinalize
  dsimp only
  rw [memoryHardMix_withBuffers]
  rfl

end Buffers

/-! ## Submissions with a known outcome -/

section Outcome

variable {host : Host} {moment : Moment} {localPolicy : Bool} {node : Node} {params : Json}

/-- The run that submits one block. -/
theorem run_of_connection {allowed : Node → Call → Prop} {start next : Node} {one : Accepted host}
    (permitted : allowed start (.submitBlock moment localPolicy params))
    (connected : connection host moment localPolicy start params = [one])
    (stepped : stepNode host start (.submitBlock moment localPolicy params) = some next) :
    (nodeMachine host).Runs allowed start [.submitBlock moment localPolicy params] [one] next := by
  have run : (nodeMachine host).Runs allowed start _ _ next := .call .nil permitted stepped
  change (nodeMachine host).Runs allowed start _
    ([] ++ connection host moment localPolicy start params)
    next at run
  rwa [connected] at run

/-- A run that ends with two submissions of one block each. -/
theorem runs_of_submissions {allowed : Node → Call → Prop} {start middle final : Node}
    {other : Json} {first second : Accepted host}
    (opening : allowed start (.submitBlock moment localPolicy params))
    (closing : allowed middle (.submitBlock moment localPolicy other))
    (one : connection host moment localPolicy start params = [first])
    (two : connection host moment localPolicy middle other = [second])
    (stepped : stepNode host start (.submitBlock moment localPolicy params) = some middle)
    (ended : stepNode host middle (.submitBlock moment localPolicy other) = some final) :
    (nodeMachine host).Runs allowed start
      [.submitBlock moment localPolicy params, .submitBlock moment localPolicy other]
      [first, second]
      final := by
  have run := (run_of_connection opening one stepped).snoc (.submitBlock moment localPolicy other)
    closing ended
  change (nodeMachine host).Runs allowed start _
    ([first] ++ connection host moment localPolicy middle
    other) final at run
  rwa [two] at run

end Outcome

/-! ## Blocks and the mempool -/

section Mempool

variable (host : Host) (moment : Moment) (localPolicy : Bool) (node : Node) (pool : Mempool)
  (file : Option Json)

/-- A node with another mempool. -/
def Node.withMempool : Node :=
  { node with mempoolFile := file, storage := { node.storage with mempool := pool } }

theorem checkDraft_withMempool (block : Json) :
    checkDraft host moment localPolicy (node.withMempool pool file) block =
      checkDraft host moment localPolicy node block := rfl

theorem checkTxs_withMempool (height : Nat) (txs prior : List Tx) (staged : FlagBook)
    (names : NameTable) :
    checkTxs host (node.withMempool pool file) localPolicy height txs prior staged names =
      checkTxs host node localPolicy height txs prior staged names := by
  induction txs generalizing prior staged names with
  | nil => rfl
  | cons tx rest ih =>
      have first :
          checkTx host (node.withMempool pool file) localPolicy height prior staged names tx =
          checkTx host node localPolicy height prior staged names tx := rfl
      simp only [checkTxs, first, ih]

/-- The checks of a block do not look at the mempool. -/
theorem checkBlock_withMempool (block : Json) :
    checkBlock host moment localPolicy (node.withMempool pool file) block =
      checkBlock host moment localPolicy node block := by
  unfold checkBlock
  simp only [checkDraft_withMempool, checkTxs_withMempool]
  rfl

end Mempool

/-! ## A flag and its claim -/

/-- The document of a flag transaction of the sample key under the name alice. -/
def flagJson (fee : UInt64) (input : TxIn) (outputs : List TxOut) (members : List (String × Json)) :
    Json :=
  .ofMembers <|
    [("fee", .unsigned fee), ("inputs", .array [inputToJson input]),
      ("outputs", .array (outputs.map outputToJson)), ("version", .unsigned 1),
      ("name", .string "alice".toList), ("address", .string sampleAddress)] ++ members

/-- A flag for two claims of five units each. -/
def creationJson (input : TxIn) : Json :=
  flagJson 1 input [⟨1, sampleAddress⟩]
    [("type", .string "createflag".toList), ("flag_id", .string "f".toList),
      ("commitment", .string (List.replicate 64 'c')),
      ("awards_pubkey", .string (List.flatMap hexByte samplePublicKey)),
      ("max_claims", .unsigned 2), ("expires_height", .unsigned 0), ("bounty_units", .unsigned 5),
      ("note", .string [])]

/-- A claim of the flag. -/
def claimJson (input : TxIn) : Json :=
  flagJson 314 input [⟨5, plainAddress⟩, ⟨686, sampleAddress⟩]
    [("type", .string "claimflag".toList), ("flag_id", .string "f".toList),
      ("recipient", .string plainAddress)]

def creationSignature : Bytes :=
  [0xc0, 0x81, 0x12, 0x3c, 0xb1, 0x98, 0x64, 0xa7, 0xbc, 0x4d, 0xdb, 0x2e, 0x9d, 0xbd, 0xdf, 0x48,
   0xd0, 0x56, 0xe7, 0x5a, 0xf8, 0x2a, 0xb9, 0xe9, 0x3c, 0xcc, 0x1f, 0x89, 0x52, 0x9b, 0xeb, 0xe5,
   0xf2, 0x15, 0xf9, 0x6e, 0x15, 0x13, 0x13, 0x50, 0x18, 0x8e, 0x62, 0xc8, 0xed, 0x79, 0x57, 0xb7,
   0xef, 0xee, 0x58, 0xa3, 0x6e, 0x43, 0xbf, 0x34, 0x23, 0xa2, 0x72, 0x5f, 0x6f, 0xcb, 0x9b, 0x0e]

def claimSignature : Bytes :=
  [0x40, 0xa2, 0x87, 0xcd, 0x1a, 0x17, 0x84, 0x43, 0x8a, 0x49, 0xf4, 0xa5, 0xa0, 0x36, 0x7e, 0x40,
   0x66, 0x6c, 0xfa, 0xca, 0x04, 0x12, 0x30, 0xf2, 0xa1, 0x5c, 0x8b, 0x64, 0x46, 0xef, 0x4d, 0x13,
   0xb2, 0x1a, 0x6c, 0x19, 0x70, 0x3c, 0x0b, 0xa2, 0x42, 0xe3, 0xa7, 0x1b, 0x05, 0x66, 0xfe, 0xe3,
   0x2b, 0xb0, 0xc4, 0xc7, 0x3d, 0x90, 0xf0, 0xb2, 0xb9, 0x82, 0x6d, 0xe8, 0x21, 0xe4, 0x5a, 0x06]

/-- A payment of five units. -/
def paymentJson (input : TxIn) : Json :=
  spendJson 314 [input] [⟨5, plainAddress⟩, ⟨681, sampleAddress⟩]

def paymentSignature : Bytes :=
  [0x19, 0x3a, 0x0e, 0x52, 0xed, 0xca, 0x1f, 0xfb, 0x2d, 0x71, 0x29, 0xb9, 0x51, 0x66, 0xd6, 0xee,
   0x41, 0x64, 0x32, 0xc1, 0xb6, 0xd2, 0x26, 0x89, 0x8b, 0xf7, 0x53, 0x8e, 0x2d, 0x61, 0xfa, 0x9d,
   0xb6, 0x44, 0xe3, 0xc8, 0x0c, 0x0d, 0xa1, 0x8c, 0x4f, 0x94, 0x2a, 0x5b, 0xed, 0xd2, 0x5c, 0xf2,
   0xa8, 0x78, 0x65, 0x5c, 0xb1, 0x1e, 0x61, 0xc3, 0x88, 0x65, 0xb8, 0x0f, 0x05, 0xbc, 0x49, 0x02]

/-- The id that the coins of the late node were created under. -/
def coinId : Digest := Digest.ofPrefix [1]

/-- The hash of the tip of the late node. -/
def lateTip : Digest := Digest.ofPrefix [9]

def creationHash : Digest :=
  ⟨[0x05, 0x7a, 0x05, 0xc2, 0x9b, 0xf4, 0x9b, 0xc0, 0x74, 0x63, 0x74, 0xcd, 0xb4, 0x20, 0xb4,
    0xf2, 0x4e, 0x2b, 0x4e, 0xa9, 0x66, 0x64, 0x66, 0x15, 0x55, 0x60, 0x55, 0xb4, 0x5f, 0x58,
    0x5f, 0xe6], rfl⟩

def creationRoot : Digest :=
  ⟨[0x78, 0x15, 0x01, 0x2c, 0xfd, 0x58, 0x1a, 0x35, 0x57, 0xfe, 0x30, 0x8a, 0x89, 0xee, 0x74,
    0xcc, 0x9b, 0x8d, 0x74, 0x97, 0xd3, 0x09, 0x2b, 0xd3, 0x80, 0x77, 0x28, 0x5a, 0xb1, 0x04,
    0x18, 0x56], rfl⟩

def claimHash : Digest :=
  ⟨[0x06, 0x7e, 0x06, 0xcc, 0x5e, 0x36, 0x5e, 0xa3, 0xd6, 0x42, 0xd6, 0xb4, 0xe0, 0x21, 0xe0,
    0xaa, 0x7d, 0x96, 0x7d, 0x2f, 0xed, 0xbb, 0xed, 0x33, 0x5f, 0x17, 0x5f, 0x1e, 0xd9, 0x64,
    0xd9, 0xd3], rfl⟩

def claimRoot : Digest :=
  ⟨[0xfb, 0x17, 0x89, 0x8d, 0x79, 0x51, 0x55, 0x19, 0x26, 0x4f, 0x43, 0x44, 0x22, 0x0a, 0x1d,
    0x1d, 0xff, 0x19, 0xea, 0xf0, 0xf5, 0x56, 0x48, 0x1c, 0x52, 0xe4, 0x84, 0x01, 0x6c, 0xc5,
    0x42, 0x06], rfl⟩

/-- The first chunks of the buffers of the two blocks, with the hashes of the buffers. -/
def lateBuffers : List (Bytes × Digest) :=
  [([0x40, 0xc3, 0x41, 0x1a, 0xb0, 0x7f, 0xf8, 0x0d, 0xa3, 0xcf, 0xa8, 0xfc, 0x79, 0xff, 0xbd,
     0xe1, 0x9d, 0x41, 0x68, 0x36, 0xa5, 0x88, 0x95, 0x4d, 0x7d, 0xc6, 0x8d, 0x99, 0x75, 0xfb,
     0x4e, 0xfc],
    ⟨[0xa7, 0x4d, 0x33, 0xd9, 0x38, 0xe4, 0x23, 0x98, 0xc0, 0x64, 0x02, 0x4c, 0xb8, 0x9b, 0xbe,
      0x48, 0x47, 0xe7, 0x96, 0x0e, 0x60, 0x9f, 0xe4, 0x9f, 0x05, 0x2a, 0x9a, 0xf4, 0xee, 0x4f,
      0xdc, 0x8a], rfl⟩),
   ([0xa1, 0x0e, 0x24, 0x67, 0xd6, 0xb2, 0x89, 0x1d, 0xf1, 0x1d, 0xec, 0x07, 0xab, 0x65, 0x1c,
     0x95, 0x08, 0x5b, 0x76, 0x2a, 0x6e, 0x73, 0x19, 0xb4, 0x86, 0x52, 0xa4, 0x3f, 0x48, 0x27,
     0x34, 0x74],
    ⟨[0x9a, 0x80, 0xab, 0x79, 0x96, 0x32, 0x05, 0xe7, 0x7d, 0xee, 0x1c, 0x97, 0x9a, 0x7f, 0xf2,
      0xbd, 0xd6, 0xd2, 0xee, 0x43, 0x53, 0x84, 0x9b, 0x6a, 0x63, 0x3c, 0x3a, 0x5a, 0x96, 0x97,
      0xc3, 0x26], rfl⟩)]

/-- The host that knows the signatures. -/
def flagHost : Host :=
  Host.ofTables
    [(samplePublicKey, creationSignature, (creationJson (signedSpend coinId 0 [] [])).dump.bytes),
      (samplePublicKey, claimSignature, (claimJson (signedSpend coinId 1 [] [])).dump.bytes),
      (samplePublicKey, paymentSignature, (paymentJson (signedSpend coinId 2 [] [])).dump.bytes)] []

/-- The host that knows the two buffers as well. -/
def lateHost : Host := flagHost.withBuffers lateBuffers

/-- A node two blocks below the height at which amounts change their unit, with coins of
the sample address. It has no header but that of its tip. -/
def lateNode : Node :=
  { Node.empty (fun _ => none) with
    storage := { Storage.empty with
      heightToHash := List.replicate 2998 Digest.zero ++ [lateTip]
      bestBlockHash := lateTip
      bestHeight := 2998
      hashToIndex := Finmap.singleton lateTip 0
      headersCache := Finmap.singleton lateTip
        ⟨1, Digest.zero, Digest.zero, 100, 4, 0, lateTip, 2998⟩
      utxo := ((Finmap.singleton (coinId, 0) ⟨12, sampleAddress, 1⟩).insert (coinId, 1)
        ⟨1, sampleAddress, 1⟩).insert (coinId, 2) ⟨1000, sampleAddress, 1⟩ } }

/-- The work on a block with a challenge. -/
def lateWork (nonce : UInt64) (hash : Digest) : Work where
  nonce := nonce
  hash := hash
  model := "Raspberry Pi 5".toList
  serialCommitment :=
    ⟨[0xfb, 0x20, 0x4e, 0x4e, 0xf4, 0xc1, 0x66, 0x00, 0xc9, 0x54, 0x8e, 0xdf, 0xcf, 0xf3, 0x72,
      0xf9, 0x23, 0x99, 0xd0, 0x63, 0x4a, 0x0d, 0xfb, 0xed, 0xfc, 0xac, 0x32, 0xde, 0x1d, 0x38,
      0x58, 0x3a], rfl⟩
  challenge := List.replicate 64 '0'
  serial := "10000000".toList

/-- The last block with old units, which creates the flag. -/
def creationBlock : MinedBlock where
  height := 2999
  prev := lateTip
  root := creationRoot
  stamp := 200
  difficulty := 4
  coinbase := sampleCoinbase 2999 (sampleOuts plainAddress)
  txs := [creationJson (signedSpend coinId 0 creationSignature samplePublicKey)]
  work := lateWork 1 creationHash

/-- The first block with pi, which claims the flag. -/
def claimBlock : MinedBlock where
  height := 3000
  prev := creationHash
  root := claimRoot
  stamp := 300
  difficulty := 4
  coinbase := sampleCoinbase 3000
    [⟨"miner".toList, sampleAddress, 216188⟩, ⟨"validator".toList, plainAddress, 2000⟩,
      ⟨"foundation".toList, foundationPayout, 21⟩]
  txs := [claimJson (signedSpend coinId 1 claimSignature samplePublicKey)]
  work := lateWork 8 claimHash

/-! ## The two submissions -/

/-- What a block of the second proof of work shows on the host that knows the buffers. -/
structure ShowsWork (block : Json) (draft : Draft) (root digest : Digest) : Prop where
  late : 5 ≤ draft.fields.height
  root_eq : root = merkleRoot lateHost draft.ids
  digest_eq : digest = bufferedPihash flagHost lateBuffers draft root
  merkle : fromHex draft.fields.merkleText = some root
  algorithm : algorithmOf block = "pihash2".toList
  hash : fromHex draft.fields.hashText = some digest
  enough : Storage.validateBlockPow digest draft.fields.difficulty = true

theorem ShowsWork.checkWork {block : Json} {draft : Draft} {root digest : Digest}
    (shows : ShowsWork block draft root digest) :
    PiSecure.checkWork lateHost block draft = .ok (root, digest) :=
  checkWork_ok.mpr ⟨shows.root_eq,
    shows.digest_eq.trans (pihash_withBuffers flagHost lateBuffers shows.late _).symm, shows.merkle,
    fun _ => shows.algorithm, shows.hash, shows.enough⟩

/-- The transaction that creates the flag. -/
def creationTx : Tx where
  reg := true
  fee := 1
  name := "alice".toList
  regAddress := sampleAddress
  flagKind := .create
  flagId := "f".toList
  commitment := List.replicate 64 'c'
  awardsPubkey := List.flatMap hexByte samplePublicKey
  maxClaims := 2
  bountyUnits := 5
  escrowLock := 10
  inputs := [signedSpend coinId 0 creationSignature samplePublicKey]
  outputs := [⟨1, sampleAddress⟩]
  txid :=
    ⟨[0x40, 0x66, 0x5f, 0x96, 0x93, 0x6b, 0x9e, 0x52, 0x27, 0x27, 0xf5, 0x97, 0xf7, 0x33, 0x9c,
      0x2f, 0x99, 0x9f, 0x9f, 0x09, 0x71, 0xb6, 0xb3, 0x43, 0x7f, 0x79, 0xe8, 0x3b, 0x4d, 0x44,
      0xe3, 0x9f], rfl⟩

/-- The transaction that claims it. -/
def claimTx : Tx where
  reg := true
  fee := 314
  name := "alice".toList
  regAddress := sampleAddress
  flagKind := .claim
  flagId := "f".toList
  recipient := plainAddress
  inputs := [signedSpend coinId 1 claimSignature samplePublicKey]
  outputs := [⟨5, plainAddress⟩, ⟨686, sampleAddress⟩]
  txid :=
    ⟨[0xaf, 0xd1, 0xad, 0x89, 0xb7, 0x67, 0xe7, 0xae, 0x3f, 0x7f, 0x01, 0xfc, 0x5b, 0x85, 0x28,
      0xa0, 0x33, 0x7e, 0x48, 0xf3, 0x8a, 0x6f, 0x33, 0x0c, 0xe6, 0xcc, 0x19, 0xf5, 0xd5, 0x87,
      0xca, 0xac], rfl⟩

/-- The coinbase of the first block. -/
def creationCb : Tx where
  coinbase := true
  height := 2999
  outputs := [⟨216, sampleAddress⟩, ⟨2, plainAddress⟩]
  txid :=
    ⟨[0xf8, 0xac, 0x18, 0x63, 0xe1, 0x0c, 0xff, 0xa7, 0xcd, 0x95, 0xfc, 0x80, 0xec, 0x83, 0xcd,
      0xa7, 0x36, 0x42, 0xeb, 0xa0, 0xe9, 0xf4, 0x71, 0xd6, 0xf9, 0x9a, 0x8f, 0x3a, 0xc4, 0xd7,
      0x1a, 0x6b], rfl⟩

/-- The coinbase of the second block. -/
def claimCb : Tx where
  coinbase := true
  height := 3000
  outputs := [⟨216188, sampleAddress⟩, ⟨2000, plainAddress⟩, ⟨21, foundationPayout⟩]
  txid :=
    ⟨[0xdc, 0x02, 0xe8, 0x50, 0x07, 0x2b, 0xdb, 0xe4, 0xf9, 0x72, 0x54, 0x2f, 0xf3, 0x81, 0x87,
      0x26, 0xb3, 0x39, 0xbf, 0xf0, 0x76, 0xb3, 0x82, 0xd3, 0xe9, 0x36, 0xbb, 0x39, 0x78, 0xdc,
      0x58, 0x69], rfl⟩

/-- The draft of the first block. -/
def creationDraft : Draft := creationBlock.draft [creationTx] (sampleOuts plainAddress) creationCb

/-- The flag that the first block creates. -/
def lateFlag : Flag where
  id := "f".toList
  commitment := List.replicate 64 'c'
  awardsPubkey := List.flatMap hexByte samplePublicKey
  maxClaims := 2
  expiresHeight := 0
  bountyUnits := 5
  note := []
  escrow := 10
  txid := toHex creationTx.txid
  claimants := []
  claimTxids := []

/-- What the checks of the first block lead to. -/
def creationChecked : Checked where
  draft := creationDraft
  root := creationRoot
  digest := creationHash
  stored := storedBlock creationBlock.json creationDraft creationRoot creationHash []
  flags := [lateFlag]

/-- The first block passes every check. -/
theorem creation_passed : checkBlock lateHost sampleMoment false lateNode creationBlock.json =
    ([], .ok creationChecked) := by
  have drafted : checkDraft lateHost sampleMoment false lateNode creationBlock.json =
      .ok creationDraft := by
    refine checkDraft_ok.mpr ⟨sampleAddress, ?_, ?_, ?_, ?_, ?_, ?_, ?_, ?_, ?_⟩
    · refine MinedBlock.readFields_json ?_ ?_ ?_ ?_ ?_ ?_ <;> decide +kernel
    · decide +kernel
    · decide +kernel
    · decide +kernel
    · decide +kernel
    · decide +kernel
    · decide +kernel
    · decide +kernel
    · decide +kernel
  have checked : checkTxs lateHost lateNode false 2999 [creationTx] [creationCb] [] [] =
      ([], .ok [lateFlag]) := by
    decide +kernel
  have worked : checkWork lateHost creationBlock.json creationDraft =
      .ok (creationRoot, creationHash) := by
    refine ShowsWork.checkWork ⟨?_, ?_, ?_, ?_, ?_, ?_, ?_⟩ <;> decide +kernel
  have fits : creationChecked.stored.dumpSize ≤ kMaxBlockBytes := by decide +kernel
  exact checkBlock_ok.mpr ⟨checkDraft_ok.mp drafted, checked, worked, rfl, fits⟩

/-- The node after the first block. -/
def createdNode : Node := connectBlock lateHost sampleMoment false lateNode creationChecked

/-- The draft of the second block. -/
def claimDraft : Draft :=
  claimBlock.draft [claimTx]
    [⟨"miner".toList, sampleAddress, 216188⟩, ⟨"validator".toList, plainAddress, 2000⟩,
      ⟨"foundation".toList, foundationPayout, 21⟩] claimCb

/-- The flag with its claim. -/
def claimedFlag : Flag := FlagBook.recordClaim lateFlag plainAddress (toHex claimTx.txid)

/-- What the checks of the second block lead to. -/
def claimChecked : Checked where
  draft := claimDraft
  root := claimRoot
  digest := claimHash
  stored := storedBlock claimBlock.json claimDraft claimRoot claimHash createdNode.names
  flags := [claimedFlag]

/-- The second block passes every check. -/
theorem claim_passed : checkBlock lateHost sampleMoment false createdNode claimBlock.json =
    (createdNode.names, .ok claimChecked) := by
  have drafted : checkDraft lateHost sampleMoment false createdNode claimBlock.json =
      .ok claimDraft := by
    refine checkDraft_ok.mpr ⟨sampleAddress, ?_, ?_, ?_, ?_, ?_, ?_, ?_, ?_, ?_⟩
    · refine MinedBlock.readFields_json ?_ ?_ ?_ ?_ ?_ ?_ <;> decide +kernel
    · decide +kernel
    · decide +kernel
    · decide +kernel
    · decide +kernel
    · decide +kernel
    · decide +kernel
    · decide +kernel
    · decide +kernel
  have checked : checkTxs lateHost createdNode false 3000 [claimTx] [claimCb] createdNode.flags
      createdNode.names = (createdNode.names, .ok [claimedFlag]) := by
    decide +kernel
  have worked : checkWork lateHost claimBlock.json claimDraft = .ok (claimRoot, claimHash) := by
    refine ShowsWork.checkWork ⟨?_, ?_, ?_, ?_, ?_, ?_, ?_⟩ <;> decide +kernel
  have fits : claimChecked.stored.dumpSize ≤ kMaxBlockBytes := by decide +kernel
  exact checkBlock_ok.mpr ⟨checkDraft_ok.mp drafted, checked, worked, rfl, fits⟩

/-- The submission of a late block by a peer. -/
def lateCall (block : MinedBlock) : Call := .submitBlock sampleMoment false block.json

/-- The first block is connected. -/
theorem creation_connected : ∃ accepted,
    connection lateHost sampleMoment false lateNode creationBlock.json = [accepted] ∧
      accepted.node = lateNode ∧ accepted.checked = creationChecked ∧
      stepNode lateHost lateNode (lateCall creationBlock) = some createdNode := by
  obtain ⟨accepted, one, node, checked, next⟩ :=
    connection_of_passed (by decide +kernel) creation_passed
    (by decide +kernel)
  exact ⟨accepted, one, node, checked, congrArg some next⟩

/-- The second block is connected after it. -/
theorem claim_connected : ∃ accepted final,
    connection lateHost sampleMoment false createdNode claimBlock.json = [accepted] ∧
      accepted.node = createdNode ∧ accepted.checked = claimChecked ∧
      stepNode lateHost createdNode (lateCall claimBlock) = some final := by
  obtain ⟨accepted, one, node, checked, _⟩ := connection_of_passed (by decide +kernel) claim_passed
    (by decide +kernel)
  exact ⟨accepted, _, one, node, checked, rfl⟩

/-- The run of the two submissions. -/
theorem late_run {creation claim : Accepted lateHost} {final : Node} (allowed : Node → Call → Prop)
    (first : allowed lateNode (lateCall creationBlock))
    (second : allowed createdNode (lateCall claimBlock))
    (created : connection lateHost sampleMoment false lateNode creationBlock.json = [creation])
    (claimed : connection lateHost sampleMoment false createdNode claimBlock.json = [claim])
    (stepped : stepNode lateHost lateNode (lateCall creationBlock) = some createdNode)
    (ended : stepNode lateHost createdNode (lateCall claimBlock) = some final) :
    (nodeMachine lateHost).Runs allowed lateNode [lateCall creationBlock, lateCall claimBlock]
      [creation, claim] final :=
  runs_of_submissions first second created claimed stepped ended

end PiSecure
