import PiSecure.Theory.RoundTrip
import PiSecure.Theory.Stored

/-! # Blocks as miners write them

The document that a miner submits: the header fields, a coinbase, the
transactions, and the work. The checks read back what was written.
-/

namespace PiSecure

/-- What a miner adds to a block: the nonce with the hash that it leads to, and the
proof of the hardware. -/
structure Work where
  nonce : UInt64
  hash : Digest
  model : Text
  serialCommitment : Digest
  challenge : Text
  serial : Text

/-- A block before it is submitted. -/
structure MinedBlock where
  height : Nat
  prev : Digest
  root : Digest
  stamp : UInt64
  difficulty : UInt32
  coinbase : Json
  txs : List Json
  work : Work

namespace MinedBlock

/-- The hardware proof of a block; the challenge is part of it from height 4 on. -/
def proof (block : MinedBlock) : Json :=
  .ofMembers <|
    [("model", .string block.work.model),
      ("serial_commitment", .string (toHex block.work.serialCommitment))] ++
    (if block.height ≥ 4 then
      [("challenge", .string block.work.challenge), ("serial", .string block.work.serial)]
    else [])

/-- The document of a block. -/
def json (block : MinedBlock) : Json :=
  .ofMembers
    [("coinbase", block.coinbase), ("difficulty", .unsigned block.difficulty.toUInt64),
      ("hash", .string (toHex block.work.hash)),
      ("height", .unsigned (UInt64.ofNat block.height)), ("hw_proof", block.proof),
      ("merkle_root", .string (toHex block.root)), ("nonce", .unsigned block.work.nonce),
      ("pihash", .ofMembers [("algorithm", .string "pihash2".toList)]),
      ("prev_block_hash", .string (toHex block.prev)), ("timestamp", .unsigned block.stamp),
      ("txs", .array block.txs), ("version", .unsigned 1)]

/-- The fields of a block whose coinbase names a wallet. -/
def fields (block : MinedBlock) (wallet : Text) : SubmittedFields where
  proof := block.proof
  model := block.work.model
  serial := block.work.serialCommitment
  height := block.height
  nonce := block.work.nonce
  timestamp := block.stamp
  difficulty := block.difficulty
  prevText := toHex block.prev
  merkleText := toHex block.root
  hashText := toHex block.work.hash
  coinbase := block.coinbase
  wallet := wallet

theorem proof_text? (block : MinedBlock) :
    block.proof.text? "model" = some block.work.model ∧
      block.proof.text? "serial_commitment" = some (toHex block.work.serialCommitment) := by
  simp only [proof, Json.text?, Json.get?_ofMembers]
  split <;> exact ⟨rfl, rfl⟩

/-- The fields are read back as they were written. -/
theorem readFields_json {block : MinedBlock} {wallet : Text}
    (model : officialPiModel block.work.model = true)
    (serial : isZero block.work.serialCommitment = false) (height : block.height < 2 ^ 32)
    (object : block.coinbase.isObject = true) (named : block.coinbase.text? "wallet" = some wallet)
    (short : wallet.isEmpty = false ∧ wallet.size ≤ 256) :
    readFields block.json = .ok (block.fields wallet) := by
  have read : ∀ key, block.json.get? key = Json.lookup key _ := fun key => Json.get?_ofMembers _ key
  have coinbase : block.json.object? "coinbase" = some block.coinbase := by
    rw [Json.object?, read]
    exact Option.filter_eq_some_iff.mpr ⟨rfl, object⟩
  have placed : (UInt64.ofNat block.height).toUInt32.toNat = block.height := by
    rw [UInt64.toNat_toUInt32, UInt64.toNat_ofNat']
    omega
  refine readFields_ok.mpr
    ⟨?_, ⟨block.proof_text?.1, model⟩, ⟨?_, serial⟩, ?_, ?_, ?_, ?_, ?_, ?_, ?_,
    ?_, coinbase, named, short⟩
  · rw [Json.object?, read]
    exact Option.filter_eq_some_iff.mpr ⟨rfl, Json.isObject_ofMembers _⟩
  · change (block.proof.text? "serial_commitment").bind fromHex = _
    rw [block.proof_text?.2]
    exact fromHex_toHex _
  · rw [Json.unsigned?, read]
    rfl
  · rw [Json.unsigned?, read]
    exact congrArg some placed
  · rw [Json.unsigned?, read]
    rfl
  · rw [Json.unsigned?, read]
    rfl
  · rw [Json.unsigned?, read]
    exact congrArg some (UInt32.toUInt32_toUInt64 _)
  · rw [Json.text?, read]
    rfl
  · rw [Json.text?, read]
    rfl
  · rw [Json.text?, read]
    rfl

end MinedBlock

/-! ## Submissions with a known outcome -/

section Outcome

variable {host : Host} {moment : Moment} {localPolicy : Bool} {node : Node} {params : Json}

/-- Whether a document is an object with members. -/
def isFilled : Json → Bool
  | .object (_ :: _) => true
  | _ => false

/-- A document that passes the checks, and is not stored, is connected. -/
theorem connection_of_passed {names : NameTable} {checked : Checked}
    (filled : isFilled params = true)
    (passed : checkBlock host moment localPolicy node params = (names, .ok checked))
    (fresh : node.storage.blockIndex checked.digest = none) :
    ∃ accepted, connection host moment localPolicy node params = [accepted] ∧
      accepted.node = node ∧ accepted.checked = checked ∧
      (rpcSubmitblock host moment localPolicy node params).1 =
        connectBlock host moment localPolicy { node with names := names } checked := by
  obtain ⟨accepted, accepts, same, named⟩ : ∃ accepted,
      acceptance host moment localPolicy node params = some accepted ∧
        accepted.checked = checked ∧ accepted.names = names := by
    unfold acceptance
    cases params with
    | object members =>
        cases members with
        | nil => cases filled
        | cons member members =>
            dsimp only [asObjectParam]
            split
            next other another succeeded =>
              rw [passed] at succeeded
              cases succeeded
              exact ⟨_, rfl, rfl, rfl⟩
            next failed =>
              rw [passed] at failed
              cases failed
    | _ => cases filled
  have unstored : node.storage.blockIndex accepted.hash = none := by
    rw [Accepted.hash, same]
    exact fresh
  refine ⟨accepted, ?_, (acceptance_of accepts).node_eq, same, ?_⟩
  · rw [connection, accepts]
    dsimp only
    rw [unstored]
    rfl
  · rw [rpcSubmitblock_of_some accepts, unstored, same, named]

end Outcome

/-! ## Blocks on which runs are computed -/

/-- A public key, and the address of its hash. -/
def samplePublicKey : Bytes :=
  [0xd7, 0x5a, 0x98, 0x01, 0x82, 0xb1, 0x0a, 0xb7, 0xd5, 0x4b, 0xfe, 0xd3, 0xc9, 0x64, 0x07, 0x3a,
   0x0e, 0xe1, 0x72, 0xf3, 0xda, 0xa6, 0x23, 0x25, 0xaf, 0x02, 0x1a, 0x68, 0xf7, 0x07, 0x51, 0x1a]

def sampleAddress : Text :=
  "ps1".toList ++ List.flatMap hexByte
    [0x21, 0xfe, 0x31, 0xdf, 0xa1, 0x54, 0xa2, 0x61, 0x62, 0x6b, 0xf8, 0x54, 0x04, 0x6f, 0xd2, 0x27,
     0x1b, 0x7b, 0xed, 0x4b, 0x6a, 0xbe, 0x45, 0xaa, 0x58, 0x87, 0x7e, 0xf4, 0x7f, 0x97, 0x21, 0xb9]

/-- An address of the form `ps1…`, and the same one in capital letters. -/
def plainAddress : Text := "ps1".toList ++ List.replicate 64 'a'

def capitalAddress : Text := "PS1".toList ++ List.replicate 64 'A'

/-- A moment long after the sample blocks; the mempool is walked in its order. -/
def sampleMoment : Moment where
  now := 1000
  fresh := none
  listing pool := pool.entries.map Sigma.snd
  listing_perm _ := List.Perm.refl _

/-- The work on a block below the height of the first challenge. -/
def sampleWork (nonce : UInt64) (hash : Digest) : Work where
  nonce := nonce
  hash := hash
  model := "Raspberry Pi 5".toList
  serialCommitment := Digest.ofPrefix [7]
  challenge := []
  serial := []

/-- The coinbase document of a miner that pays outputs. -/
def sampleCoinbase (height : Nat) (outs : List CbOut) : Json :=
  .ofMembers
    [("height", .unsigned (UInt64.ofNat height)),
      ("outputs", .array (outs.map (cbOutToJson height))), ("wallet", .string sampleAddress)]

/-- A miner of the sample address and a validator of another one. -/
def sampleOuts (validator : Text) : List CbOut :=
  [⟨"miner".toList, sampleAddress, 216⟩, ⟨"validator".toList, validator, 2⟩]

/-- The id of the first coinbase, and the hash of the first block. -/
def openingTxid : Digest :=
  ⟨[0xc6, 0x5e, 0x27, 0xb0, 0xcc, 0xc7, 0xc6, 0xdf, 0x2e, 0x30, 0x9d, 0x62, 0xd5, 0xf6, 0xc0, 0xf5,
    0x51, 0x78, 0x5c, 0x57, 0xf1, 0x26, 0xac, 0x48, 0x62, 0xc4, 0x56, 0xc0, 0x8f, 0x96, 0x16, 0x58],
    rfl⟩

def openingHash : Digest :=
  ⟨[0x04, 0x91, 0xa7, 0x27, 0xd4, 0x11, 0xd8, 0xfe, 0xdd, 0x7f, 0xa2, 0xba, 0xcc, 0x65, 0x34, 0x23,
    0x2b, 0x84, 0x29, 0xee, 0xe5, 0x11, 0x3c, 0x97, 0xbf, 0x9b, 0x5a, 0x62, 0xe1, 0xdd, 0xad, 0x3d],
    rfl⟩

/-- A first block; its validator is paid at an address in capital letters. -/
def openingBlock : MinedBlock where
  height := 1
  prev := Digest.zero
  root := openingTxid
  stamp := 100
  difficulty := 4
  coinbase := sampleCoinbase 1 (sampleOuts capitalAddress)
  txs := []
  work := sampleWork 40 openingHash

deriving instance DecidableEq for Binding

/-- The draft of a block of the sample miner. -/
def MinedBlock.draft (block : MinedBlock) (txs : List Tx) (outs : List CbOut) (cb : Tx) :
    Draft where
  fields := block.fields sampleAddress
  shown := sampleAddress
  prev := block.prev
  binding := ⟨block.work.challenge, block.work.serial⟩
  txs := txs
  cbOuts := outs
  cb := cb

/-- The coinbase of the first block. -/
def openingCb : Tx where
  coinbase := true
  height := 1
  outputs := [⟨216, sampleAddress⟩, ⟨2, capitalAddress⟩]
  txid := openingTxid

/-- The draft of the first block. -/
def openingDraft : Draft := openingBlock.draft [] (sampleOuts capitalAddress) openingCb

/-- What the checks of the first block lead to. -/
def openingChecked : Checked where
  draft := openingDraft
  root := openingTxid
  digest := openingHash
  stored := storedBlock openingBlock.json openingDraft openingTxid openingHash []
  flags := []

/-- The first block passes every check, whatever signatures and documents the host knows. -/
theorem opening_passed (signatures : List (Bytes × Bytes × Bytes))
    (documents : List (Bytes × Json)) :
    checkBlock (Host.ofTables signatures documents) sampleMoment false (Node.empty fun _ => none)
      openingBlock.json = ([], .ok openingChecked) := by
  have coinbase : checkCoinbase (Host.ofTables [] []) 1 openingBlock.coinbase
      (sampleOuts capitalAddress) =
      .ok openingCb := by
    decide +kernel
  have root : openingTxid = merkleRoot (Host.ofTables signatures documents) [openingTxid] := by
    rw [merkleRoot]
  have digest : openingHash = openingDraft.pihash (Host.ofTables [] []) openingTxid := by
    decide +kernel
  have drafted : Drafted (Host.ofTables signatures documents) sampleMoment false
      (Node.empty fun _ => none) openingBlock.json openingDraft sampleAddress := by
    refine ⟨?_, ?_, ?_, rfl, ?_, rfl, ?_, ?_, coinbase⟩
    · refine MinedBlock.readFields_json ?_ ?_ ?_ ?_ ?_ ?_ <;> decide +kernel
    · decide +kernel
    · decide +kernel
    · decide +kernel
    · decide +kernel
    · decide +kernel
  have fits : openingChecked.stored.dumpSize ≤ kMaxBlockBytes := by decide +kernel
  have worked : checkWork (Host.ofTables signatures documents) openingBlock.json openingDraft =
      .ok (openingTxid, openingHash) := by
    refine checkWork_ok.mpr ⟨root, digest, ?_, fun late => absurd late (by decide), ?_, ?_⟩ <;>
      decide +kernel
  exact checkBlock_ok.mpr ⟨⟨sampleAddress, drafted⟩, rfl, worked, rfl, fits⟩

/-- The node that accepts the first block from a peer. -/
def openedNode (host : Host) : Node :=
  (rpcSubmitblock host sampleMoment false (Node.empty fun _ => none) openingBlock.json).1

/-- The blocks that the first submission connects. -/
def openingLog (host : Host) : List (Accepted host) :=
  connection host sampleMoment false (Node.empty fun _ => none) openingBlock.json

/-- The run that submits the first block. -/
theorem openedNode_run (host : Host) (allowed : Node → Call → Prop)
    (permitted : allowed (Node.empty fun _ => none)
      (.submitBlock sampleMoment false openingBlock.json)) :
    (nodeMachine host).Runs allowed (Node.empty fun _ => none)
      [.submitBlock sampleMoment false openingBlock.json] (openingLog host) (openedNode host) :=
  .call .nil permitted rfl

/-- The first block is connected to the empty node. -/
theorem opening_connected (signatures : List (Bytes × Bytes × Bytes))
    (documents : List (Bytes × Json)) :
    ∃ accepted, openingLog (Host.ofTables signatures documents) = [accepted] ∧
      accepted.checked = openingChecked ∧
      openedNode (Host.ofTables signatures documents) =
        connectBlock (Host.ofTables signatures documents) sampleMoment false
          (Node.empty fun _ => none) openingChecked := by
  obtain ⟨accepted, one, _, checked, next⟩ := connection_of_passed (by decide +kernel)
    (opening_passed signatures documents) (by decide +kernel)
  refine ⟨accepted, one, checked, ?_⟩
  rw [openedNode, next]
  congr 1

theorem openedNode_eq (signatures : List (Bytes × Bytes × Bytes))
    (documents : List (Bytes × Json)) :
    openedNode (Host.ofTables signatures documents) =
      connectBlock (Host.ofTables signatures documents) sampleMoment false
        (Node.empty fun _ => none)
        openingChecked := by
  obtain ⟨_, _, _, opened⟩ := opening_connected signatures documents
  exact opened

/-- The first block pays what it shows. -/
theorem openingLog_eq : ∃ accepted, openingLog (Host.ofTables [] []) = [accepted] ∧
    accepted.hash = openingHash ∧ accepted.txs = [] ∧
      accepted.checked.draft.cbOuts = sampleOuts capitalAddress := by
  obtain ⟨accepted, one, checked, _⟩ := opening_connected [] []
  refine ⟨accepted, one, ?_, ?_, ?_⟩
  · rw [Accepted.hash, checked]
    rfl
  · rw [Accepted.txs, checked]
    rfl
  · rw [checked]
    rfl

/-- The coinbase id and the hash of the second block. -/
def secondTxid : Digest :=
  ⟨[0x2f, 0xf9, 0xd0, 0x15, 0xa9, 0xac, 0x81, 0x69, 0x5b, 0x46, 0x6f, 0xef, 0x5e, 0xb9, 0x81, 0xcf,
    0xe6, 0xfd, 0x44, 0x13, 0x25, 0xc1, 0xdf, 0x23, 0x82, 0x43, 0xd0, 0x9c, 0xde, 0x81, 0x75, 0xb4],
    rfl⟩

def secondHash : Digest :=
  ⟨[0x05, 0xa1, 0x0f, 0xc8, 0x1c, 0xf1, 0x2c, 0xe6, 0x31, 0x5d, 0x1d, 0x1e, 0x27, 0xed, 0xde, 0x9f,
    0xd6, 0x72, 0xe8, 0x0b, 0xbe, 0x03, 0x35, 0x45, 0xc0, 0xa6, 0xa3, 0x3a, 0x47, 0x81, 0x07, 0x21],
    rfl⟩

/-- A second block without transactions. -/
def secondBlock : MinedBlock where
  height := 2
  prev := openingHash
  root := secondTxid
  stamp := 200
  difficulty := 4
  coinbase := sampleCoinbase 2 (sampleOuts plainAddress)
  txs := []
  work := sampleWork 26 secondHash

/-- The document of a transaction without a type. -/
def spendJson (fee : UInt64) (inputs : List TxIn) (outputs : List TxOut) : Json :=
  .ofMembers
    [("fee", .unsigned fee), ("inputs", .array (inputs.map inputToJson)),
      ("outputs", .array (outputs.map outputToJson)), ("version", .unsigned 1)]

/-! ## Runs with a spend and with branches -/

/-- What is seen of a connected block: its hash, what its coinbase pays, and its transactions. -/
def Accepted.contents {host : Host} (accepted : Accepted host) : Digest × List CbOut × List Tx :=
  (accepted.hash, accepted.checked.draft.cbOuts, accepted.cb :: accepted.txs)

theorem Accepted.forall_contents {host : Host} {log : List (Accepted host)}
    {shown : List (Digest × List CbOut × List Tx)} {Holds : Digest × List CbOut × List Tx → Prop}
    (same : log.map Accepted.contents = shown) (all : ∀ seen ∈ shown, Holds seen) :
    ∀ accepted ∈ log, Holds accepted.contents := by
  subst same
  exact List.forall_mem_map.mp all

/-- The id of a transaction, and the hash of the second block that has it. -/
def spendingTxid : Digest :=
  ⟨[0x3e, 0x78, 0x58, 0xe7, 0xab, 0xa9, 0x6f, 0x64, 0xe1, 0xe8, 0x0b, 0x82, 0x70, 0x6f, 0xe4,
    0x71, 0x10, 0x09, 0x1d, 0xd4, 0x9c, 0x67, 0x9e, 0xe3, 0x11, 0x67, 0xe4, 0xe4, 0x81, 0xc7,
    0x64, 0x63], rfl⟩

def spendingHash : Digest :=
  ⟨[0x04, 0x91, 0x89, 0xe3, 0xb2, 0x8b, 0x41, 0xf6, 0x6c, 0x76, 0xfc, 0x05, 0x17, 0xcb, 0x9a,
    0x04, 0xb9, 0xc1, 0x45, 0x9b, 0x9f, 0x46, 0xff, 0x07, 0x17, 0x6a, 0x7c, 0xbc, 0x1a, 0x91,
    0xa5, 0x55], rfl⟩

/-- A second block that spends what the first one pays its validator. -/
def spendingBlock : MinedBlock :=
  { secondBlock with
    root := ⟨[0x3d, 0x7b, 0xcc, 0x5d, 0x98, 0x4a, 0x08, 0x59, 0x1d, 0x0e, 0xff, 0x89, 0x60, 0xc4,
      0x2c, 0x4c, 0xd1, 0x2c, 0x00, 0xe4, 0xa5, 0x2a, 0x4d, 0x72, 0xdb, 0xf7, 0x3d, 0xd8, 0x11,
      0x68, 0x88, 0xfc], rfl⟩
    txs := [spendJson 1 [⟨openingTxid, 1, [], []⟩] [⟨1, plainAddress⟩]]
    work := sampleWork 34 spendingHash }

/-- The transaction of that block. -/
def spendingTx : Tx where
  fee := 1
  inputs := [⟨openingTxid, 1, [], []⟩]
  outputs := [⟨1, plainAddress⟩]
  txid := spendingTxid

/-- The hash of another second block. -/
def sideHash : Digest :=
  ⟨[0x08, 0xca, 0xb6, 0x72, 0x4d, 0xfe, 0xb6, 0x20, 0xa6, 0xe5, 0xf9, 0x70, 0x38, 0x9e, 0x27, 0x4c,
    0x49, 0x8b, 0xc5, 0x2a, 0x72, 0xe2, 0x0b, 0x2b, 0x56, 0x12, 0xc1, 0x43, 0xeb, 0xfb, 0xc9, 0xd1],
    rfl⟩

def sideBlock : MinedBlock :=
  { secondBlock with stamp := 201, work := sampleWork 2 sideHash }

/-- The coinbase id and the hash of a third block on the second one without transactions. -/
def thirdTxid : Digest :=
  ⟨[0x36, 0x94, 0x34, 0xe3, 0x32, 0x3f, 0x8a, 0x54, 0xbb, 0x6b, 0x50, 0x71, 0x35, 0x7c, 0x01,
    0xe9, 0x24, 0x4b, 0x54, 0xfb, 0xff, 0x08, 0x06, 0xa1, 0x04, 0x99, 0x8c, 0x6d, 0x2a, 0xfb,
    0x0d, 0x42], rfl⟩

def thirdHash : Digest :=
  ⟨[0x05, 0x82, 0xe1, 0x0a, 0x39, 0xfc, 0x36, 0x47, 0x19, 0xde, 0xc0, 0x90, 0xfc, 0x8d, 0x10,
    0x2a, 0x2f, 0xda, 0x87, 0x56, 0x30, 0x85, 0xff, 0x60, 0x4a, 0x3f, 0x53, 0xd8, 0xf6, 0x13,
    0x09, 0xdf], rfl⟩

def thirdBlock : MinedBlock where
  height := 3
  prev := secondHash
  root := thirdTxid
  stamp := 300
  difficulty := 4
  coinbase := sampleCoinbase 3 (sampleOuts plainAddress)
  txs := []
  work := sampleWork 8 thirdHash

/-- A block of height 3 with nothing else. -/
def hollowBlock : Json := .ofMembers [("height", .unsigned 3)]

/-- The node after an adoption that failed on its second block: the first one is
stored, and the old tip is replayed. -/
def rolledBack (host : Host) : Node :=
  (rpcAdoptPeerChain host (fun _ => sampleMoment) (openedNode host) openingHash
    [secondBlock.json, hollowBlock]).1

/-- The run of the failed adoption. -/
theorem rolledBack_run (host : Host) (allowed : Node → Call → Prop)
    (opening : allowed (Node.empty fun _ => none)
      (.submitBlock sampleMoment false openingBlock.json))
    (adoption : allowed (openedNode host)
      (.adoptPeerChain (fun _ => sampleMoment) openingHash [secondBlock.json, hollowBlock])) :
    ∃ calls log, (nodeMachine host).Runs allowed (Node.empty fun _ => none) calls log
      (rolledBack host) :=
  ⟨_, _, (openedNode_run host allowed opening).snoc _ adoption rfl⟩

/-- A coinbase of the sample miner. -/
def sampleCb (height : Nat) (txid : Digest) : Tx where
  coinbase := true
  height := height
  outputs := [⟨216, sampleAddress⟩, ⟨2, plainAddress⟩]
  txid := txid

/-- The node with the spend on its chain, and the blocks that lead there. -/
def spentNode (host : Host) : Node :=
  (rpcSubmitblock host sampleMoment false (openedNode host) spendingBlock.json).1

def spentLog (host : Host) : List (Accepted host) :=
  openingLog host ++ connection host sampleMoment false (openedNode host) spendingBlock.json

/-- The calls that submit the first block and the spend. -/
def spendingCalls : List Call :=
  [.submitBlock sampleMoment false openingBlock.json,
    .submitBlock sampleMoment false spendingBlock.json]

theorem spentNode_run (host : Host) (allowed : Node → Call → Prop)
    (opening : allowed (Node.empty fun _ => none)
      (.submitBlock sampleMoment false openingBlock.json))
    (spending : allowed (openedNode host) (.submitBlock sampleMoment false spendingBlock.json)) :
    (nodeMachine host).Runs allowed (Node.empty fun _ => none) spendingCalls (spentLog host)
      (spentNode host) :=
  (openedNode_run host allowed opening).snoc _ spending rfl

/-- The contents of the two blocks. -/
def spentContents : List (Digest × List CbOut × List Tx) :=
  [(openingHash, sampleOuts capitalAddress, [openingCb]),
    (spendingHash, sampleOuts plainAddress, [sampleCb 2 secondTxid, spendingTx])]

/-- Documents are looked up in their order. -/
theorem parse_ofTables (first bytes : Bytes) (doc : Json) (rest : List (Bytes × Json)) :
    (Host.ofTables [] ((first, doc) :: rest)).parse bytes =
      if first == bytes then some doc else (Host.ofTables [] rest).parse bytes := by
  rw [Host.ofTables, Host.ofTables]
  dsimp only
  rw [List.find?_cons]
  cases first == bytes <;> rfl

/-- The draft of the spend, and what its checks lead to. -/
def spendingDraft : Draft :=
  spendingBlock.draft [spendingTx] (sampleOuts plainAddress) (sampleCb 2 secondTxid)

def spendingChecked : Checked where
  draft := spendingDraft
  root := spendingBlock.root
  digest := spendingHash
  stored := storedBlock spendingBlock.json spendingDraft spendingBlock.root spendingHash []
  flags := []

/-- The host that knows the two blocks as they are stored. -/
def storedHost : Host :=
  Host.ofTables [] [(openingChecked.stored.dump.bytes, openingChecked.stored),
    (spendingChecked.stored.dump.bytes, spendingChecked.stored)]

theorem storedHost_opened : openedNode storedHost =
    connectBlock storedHost sampleMoment false (Node.empty fun _ => none) openingChecked :=
  openedNode_eq _ _

theorem storedHost_parse_opening :
    storedHost.parse openingChecked.stored.dump.bytes = some openingChecked.stored := by
  rw [storedHost, parse_ofTables, if_pos (beq_self_eq_true _)]

theorem storedHost_parse_spending :
    storedHost.parse spendingChecked.stored.dump.bytes = some spendingChecked.stored := by
  have apart : (openingChecked.stored.dump.bytes == spendingChecked.stored.dump.bytes) = false := by
    decide +kernel
  rw [storedHost, parse_ofTables, if_neg (ne_true_of_eq_false apart), parse_ofTables,
    if_pos (beq_self_eq_true _)]

/-- The spend passes every check. -/
theorem spending_passed :
    checkBlock storedHost sampleMoment false (openedNode storedHost) spendingBlock.json =
      ([], .ok spendingChecked) := by
  have drafted : Drafted storedHost sampleMoment false (openedNode storedHost) spendingBlock.json
      spendingDraft sampleAddress := by
    rw [storedHost_opened]
    refine ⟨?_, ?_, ?_, rfl, ?_, ?_, ?_, ?_, ?_⟩
    · refine MinedBlock.readFields_json ?_ ?_ ?_ ?_ ?_ ?_ <;> decide +kernel
    · decide +kernel
    · decide +kernel
    · decide +kernel
    · decide +kernel
    · decide +kernel
    · decide +kernel
    · decide +kernel
  have checked : checkTxs storedHost (openedNode storedHost) false 2 [spendingTx]
      [sampleCb 2 secondTxid] (openedNode storedHost).flags (openedNode storedHost).names =
        ([], .ok []) := by
    rw [storedHost_opened]
    decide +kernel
  have worked : checkWork storedHost spendingBlock.json spendingDraft =
      .ok (spendingBlock.root, spendingHash) := by
    refine checkWork_ok.mpr ⟨?_, ?_, ?_, fun late => absurd late (by decide), ?_, ?_⟩ <;>
      decide +kernel
  have fits : spendingChecked.stored.dumpSize ≤ kMaxBlockBytes := by decide +kernel
  exact checkBlock_ok.mpr ⟨⟨sampleAddress, drafted⟩, checked, worked, rfl, fits⟩

theorem spending_fresh : (openedNode storedHost).storage.blockIndex spendingHash = none := by
  rw [storedHost_opened]
  decide +kernel

theorem spentNode_eq : spentNode storedHost =
    connectBlock storedHost sampleMoment false { openedNode storedHost with names := [] }
      spendingChecked := by
  obtain ⟨_, _, _, _, next⟩ := connection_of_passed rfl spending_passed spending_fresh
  exact next

theorem spending_contents :
    (connection storedHost sampleMoment false (openedNode storedHost)
      spendingBlock.json).map Accepted.contents =
        [(spendingHash, sampleOuts plainAddress, [sampleCb 2 secondTxid, spendingTx])] := by
  obtain ⟨accepted, one, _, checked, _⟩ := connection_of_passed rfl spending_passed spending_fresh
  rw [one, List.map_singleton, Accepted.contents, Accepted.hash, Accepted.cb, Accepted.txs, checked]
  rfl

theorem spentLog_contents : (spentLog storedHost).map Accepted.contents = spentContents := by
  obtain ⟨accepted, one, checked, _⟩ : ∃ accepted : Accepted storedHost,
      openingLog storedHost = [accepted] ∧ accepted.checked = openingChecked ∧ _ :=
    opening_connected [] _
  have opening : accepted.contents =
      (openingHash, sampleOuts capitalAddress, [openingCb]) := by
    rw [Accepted.contents, Accepted.hash, Accepted.cb, Accepted.txs, checked]
    rfl
  rw [spentLog, List.map_append, spending_contents, one, List.map_singleton, opening]
  rfl

/-- An adoption that fails on its second block, and one that takes the place of the spend. -/
def failingCall : Call :=
  .adoptPeerChain (fun _ => sampleMoment) openingHash [sideBlock.json, hollowBlock]

def branchCall : Call :=
  .adoptPeerChain (fun _ => sampleMoment) openingHash [secondBlock.json, thirdBlock.json]

/-- The node after the first adoption, and after the second one. -/
def keptNode (host : Host) : Node :=
  (rpcAdoptPeerChain host (fun _ => sampleMoment) (spentNode host) openingHash
    [sideBlock.json, hollowBlock]).1

def branchedNode (host : Host) : Node :=
  (rpcAdoptPeerChain host (fun _ => sampleMoment) (keptNode host) openingHash
    [secondBlock.json, thirdBlock.json]).1

/-- The blocks that the two adoptions connect. -/
def branchedLog (host : Host) : List (Accepted host) :=
  spentLog host ++ connections host (spentNode host) failingCall ++
    connections host (keptNode host) branchCall

theorem branchedNode_run (host : Host) {allowed : Node → Call → Prop}
    (spent : (nodeMachine host).Runs allowed (Node.empty fun _ => none) spendingCalls
      (spentLog host) (spentNode host))
    (failing : allowed (spentNode host) failingCall)
    (branching : allowed (keptNode host) branchCall) :
    (nodeMachine host).Runs allowed (Node.empty fun _ => none)
      (spendingCalls ++ [failingCall] ++ [branchCall]) (branchedLog host) (branchedNode host) :=
  (spent.snoc _ failing rfl).snoc _ branching rfl

/-- The contents of the blocks that are connected, also of those that are left again. -/
def branchedContents : List (Digest × List CbOut × List Tx) :=
  spentContents ++
    [(sideHash, sampleOuts plainAddress, [sampleCb 2 secondTxid]),
      (secondHash, sampleOuts plainAddress, [sampleCb 2 secondTxid]),
      (thirdHash, sampleOuts plainAddress, [sampleCb 3 thirdTxid])]

/-- A test for an adoption: it returns, and accepts all its blocks exactly when one of them is
above the tip. -/
def leads (host : Host) (node : Node) (moments : Nat → Moment) (ancestor : Digest)
    (blocks : List Json) : Bool :=
  match adoptionStart host (moments 0) node ancestor blocks with
  | .ok (based, .done) =>
      (adoptBlocks host moments 1 based blocks).2 != .thrown &&
        (((adoptBlocks host moments 1 based blocks).2 == .done) ==
          (adoptConnections host moments 1 based blocks).any fun accepted =>
            node.storage.bestHeight < accepted.height)
  | _ => true

/-- The second branch is active in the end, and both adoptions pass the test. -/
theorem branched_shown :
    (branchedLog storedHost).map Accepted.contents = branchedContents ∧
      (branchedNode storedHost).storage.heightToHash =
        [Digest.zero, openingHash, secondHash, thirdHash] ∧
      leads storedHost (spentNode storedHost) (fun _ => sampleMoment) openingHash
        [sideBlock.json, hollowBlock] = true ∧
      leads storedHost (keptNode storedHost) (fun _ => sampleMoment) openingHash
        [secondBlock.json, thirdBlock.json] = true := by
  have adopted : (connections storedHost (spentNode storedHost)
        failingCall).map Accepted.contents ++
      (connections storedHost (keptNode storedHost) branchCall).map Accepted.contents =
        [(sideHash, sampleOuts plainAddress, [sampleCb 2 secondTxid]),
          (secondHash, sampleOuts plainAddress, [sampleCb 2 secondTxid]),
          (thirdHash, sampleOuts plainAddress, [sampleCb 3 thirdTxid])] ∧
      (branchedNode storedHost).storage.heightToHash =
        [Digest.zero, openingHash, secondHash, thirdHash] ∧
      leads storedHost (spentNode storedHost) (fun _ => sampleMoment) openingHash
        [sideBlock.json, hollowBlock] = true ∧
      leads storedHost (keptNode storedHost) (fun _ => sampleMoment) openingHash
        [secondBlock.json, thirdBlock.json] = true := by
    rw [branchedNode, keptNode, spentNode_eq, storedHost_opened]
    decide +kernel
  refine ⟨?_, adopted.2⟩
  rw [branchedLog, List.map_append, List.map_append, spentLog_contents, List.append_assoc,
    adopted.1]
  rfl

/-! ## A block that registers names -/

/-- The document of a registration that spends one coin. -/
def registerJson (name address : Text) (input : TxIn) : Json :=
  (((spendJson 1 [input] [⟨1, address⟩]).set "type" (.string "register".toList)).set "name"
    (.string name)).set "address" (.string address)

/-- An input with its signature and public key. -/
def signedSpend (prev : Digest) (vout : UInt32) (signature publicKey : Bytes) : TxIn :=
  ⟨prev, vout, List.flatMap hexByte signature, List.flatMap hexByte publicKey⟩

/-- The key of a validator, and its address. -/
def validatorKey : Bytes :=
  [0x3d, 0x40, 0x17, 0xc3, 0xe8, 0x43, 0x89, 0x5a, 0x92, 0xb7, 0x0a, 0xa7, 0x4d, 0x1b, 0x7e, 0xbc,
   0x9c, 0x98, 0x2c, 0xcf, 0x2e, 0xc4, 0x96, 0x8c, 0xc0, 0xcd, 0x55, 0xf1, 0x2a, 0xf4, 0x66, 0x0c]

def validatorAddress : Text :=
  "ps1".toList ++ List.flatMap hexByte
    [0x39, 0xf7, 0x13, 0xd0, 0xa6, 0x44, 0x25, 0x3f, 0x04, 0x52, 0x94, 0x21, 0xb9, 0xf5, 0x1b, 0x9b,
     0x08, 0x97, 0x9d, 0x08, 0x29, 0x59, 0x59, 0xc4, 0xf3, 0x99, 0x0e, 0xe6, 0x17, 0xf5, 0x13, 0x9f]

/-- The id of a second coinbase that pays a miner and a validator, and those of their
registrations. -/
def namingTxid : Digest :=
  ⟨[0xe7, 0x43, 0x21, 0x64, 0x74, 0x0f, 0x41, 0x5e, 0x4d, 0x60, 0xf1, 0x3f, 0xc4, 0xa8, 0x9a,
    0xa0, 0xe5, 0x5d, 0x0f, 0x8e, 0xd0, 0xdf, 0x2f, 0xfc, 0x0b, 0xc6, 0x26, 0x90, 0x14, 0x04,
    0x95, 0x9c], rfl⟩

def namingIds : List Digest :=
  [namingTxid,
    ⟨[0xfb, 0xf1, 0x36, 0xe4, 0x2c, 0x3b, 0xce, 0x57, 0x33, 0xfb, 0xce, 0x41, 0xc7, 0xfe, 0x1b,
      0xd3, 0xa0, 0xe4, 0x33, 0x00, 0x22, 0x53, 0xc1, 0x29, 0x82, 0xfd, 0x76, 0x6a, 0x0b, 0xec,
      0xbc, 0x14], rfl⟩,
    ⟨[0x99, 0x64, 0x69, 0xca, 0xa0, 0x03, 0x70, 0x3f, 0xf8, 0x2c, 0x9c, 0x53, 0xc1, 0x46, 0x91,
      0x5b, 0x19, 0x9c, 0x8f, 0xb1, 0x95, 0x48, 0xcb, 0x8f, 0x65, 0xf2, 0x1c, 0x0c, 0x84, 0x47,
      0x55, 0x08], rfl⟩]

def namingSignatures : Bytes × Bytes :=
  ([0x4a, 0xf3, 0x99, 0x9b, 0x53, 0x9b, 0x56, 0x86, 0xbb, 0x69, 0xd6, 0xe1, 0x33, 0x6a, 0xaa,
    0x7c, 0x10, 0xd3, 0xe4, 0x6e, 0x39, 0xd5, 0x8b, 0x0f, 0x9b, 0x24, 0x06, 0x12, 0xc0, 0x0e,
    0xbb, 0xa9, 0x2a, 0x49, 0x34, 0x94, 0x3b, 0x86, 0xf7, 0xd8, 0xc1, 0x86, 0x23, 0x55, 0xcf,
    0xf0, 0xb2, 0x11, 0xd3, 0xc2, 0x53, 0x68, 0x89, 0xa1, 0x9c, 0x26, 0xb1, 0x00, 0x10, 0x19,
    0x30, 0x55, 0x07, 0x0f],
   [0xac, 0xac, 0xe8, 0x2e, 0x0d, 0xcd, 0x6e, 0x66, 0xf0, 0x8b, 0x50, 0x25, 0x21, 0x17, 0xa1,
    0x3e, 0xf1, 0x00, 0x7d, 0x0e, 0x7a, 0xd3, 0x55, 0x5a, 0xc7, 0xe5, 0x6b, 0x7b, 0x6b, 0x84,
    0xbf, 0xf9, 0xe0, 0x39, 0x10, 0x5d, 0x4d, 0x8a, 0x8a, 0xeb, 0xd0, 0x4c, 0x35, 0xec, 0xc0,
    0x48, 0xb5, 0x3c, 0xbf, 0xe9, 0x9c, 0x4f, 0xff, 0xec, 0x5e, 0xa5, 0x23, 0xdf, 0x98, 0x32,
    0x16, 0x09, 0xcc, 0x00])

/-- The registrations of two names: for the owner of an older output, and for the owner of
an output of the block itself. -/
def namingTxs (first second firstKey secondKey : Bytes) : List Json :=
  [registerJson "alice".toList sampleAddress (signedSpend openingTxid 0 first firstKey),
    registerJson "bob".toList validatorAddress (signedSpend namingTxid 1 second secondKey)]

def namingHash : Digest :=
  ⟨[0x05, 0x32, 0x9a, 0xd2, 0x0d, 0x10, 0x97, 0x40, 0x85, 0xb5, 0x9b, 0xd1, 0x4f, 0x94, 0x25,
    0xfd, 0xa2, 0xc9, 0xb1, 0x83, 0xac, 0xe5, 0x37, 0x7b, 0x7b, 0xc8, 0x59, 0xb8, 0xa7, 0x7c,
    0x28, 0xa2], rfl⟩

/-- A second block with two registrations. -/
def namingBlock : MinedBlock where
  height := 2
  prev := openingHash
  root :=
    ⟨[0xc9, 0xa5, 0x23, 0x82, 0x27, 0xa5, 0xb6, 0x4b, 0x00, 0xb0, 0x38, 0xf2, 0xf2, 0xdb, 0xd7,
      0xef, 0xc5, 0xe1, 0xd9, 0xee, 0xd5, 0x28, 0xda, 0x20, 0xfc, 0xdc, 0xe2, 0x43, 0xca, 0x64,
      0xdc, 0x15], rfl⟩
  stamp := 200
  difficulty := 4
  coinbase := sampleCoinbase 2
    [⟨"miner".toList, sampleAddress, 217⟩, ⟨"validator".toList, validatorAddress, 2⟩]
  txs := namingTxs namingSignatures.1 namingSignatures.2 samplePublicKey validatorKey
  work := sampleWork 10 namingHash

/-- A host that knows both signatures. -/
def namingHost : Host :=
  Host.ofTables
    (List.zipWith (fun signed tx => (signed.1, signed.2, tx.dump.bytes))
      [(samplePublicKey, namingSignatures.1), (validatorKey, namingSignatures.2)]
      (namingTxs [] [] [] [])) []

theorem namingHost_opened : openedNode namingHost =
    connectBlock namingHost sampleMoment false (Node.empty fun _ => none) openingChecked :=
  openedNode_eq _ _

end PiSecure
