import PiSecure.Model.Coinbase

/-! # Accepting a block

`rpc_submitblock` in the order of the source: the checks of the header, the
transactions and the coinbase, and the update of the node when all of them
pass. Each function stands for a stretch of the source function.
-/

namespace PiSecure

/-- Why a call does not succeed: a reason, or an exception. -/
inductive Refusal where
  | reason (text : String)
  | thrown
deriving DecidableEq

/-- What `rpc_submitblock` returns. -/
inductive Verdict where
  | accepted (hash : Digest) (height : Nat) (duplicate : Bool)
  | refused (refusal : Refusal)
deriving DecidableEq

/-- Whether the status of a verdict is `accepted`. -/
def Verdict.isAccepted : Verdict → Bool
  | .accepted _ _ _ => true
  | .refused _ => false

/-- Go on when a condition holds, or reject with a reason. -/
def require (condition : Bool) (reason : String) : Except Refusal Unit :=
  if condition then .ok () else .error (.reason reason)

/-- The value of an option, or a rejection. -/
def demand {α : Type} (value : Option α) (reason : String) : Except Refusal α :=
  match value with
  | some present => .ok present
  | none => .error (.reason reason)

/-- The reason of a helper as a rejection. -/
def refuse {α : Type} (result : Except String α) : Except Refusal α :=
  match result with
  | .ok value => .ok value
  | .error reason => .error (.reason reason)

/-- `as_object_param`; null when no object is given. -/
def asObjectParam (host : Host) (params : Json) : Json :=
  match params with
  | .object members => .object members
  | .array (.object members :: _) => .object members
  | .array (.string text :: _) =>
      match host.parse text.bytes with
      | some (.object members) => .object members
      | _ => .null
  | _ => .null

/-- Whether one text occurs in another. -/
def occursIn (pattern text : Text) : Bool := text.tails.any pattern.isPrefixOf

/-- `official_pi_model`. -/
def officialPiModel (model : Text) : Bool :=
  !model.isEmpty && model.size ≤ 128 && !occursIn "Zero".toList model &&
    ["Raspberry Pi 2".toList, "Raspberry Pi 3".toList, "Raspberry Pi 4".toList,
      "Raspberry Pi 5".toList].any fun known => known.isPrefixOf model

/-- `pi_serial_text`. -/
def piSerialText (serial : Text) : Bool :=
  !serial.isEmpty && serial.size ≤ 64 && serial.all fun c => (nybble c).isSome

/-! ## The header -/

/-- The fields of a submitted block that are read before the chain is looked at. -/
structure SubmittedFields where
  proof : Json
  model : Text
  serial : Digest
  height : Nat
  nonce : UInt64
  timestamp : UInt64
  difficulty : UInt32
  prevText : Text
  merkleText : Text
  hashText : Text
  coinbase : Json
  wallet : Text

/-- The presence and type checks of the fields. -/
def readFields (block : Json) : Except Refusal SubmittedFields := do
  let proof ← demand (block.object? "hw_proof") "missing hw_proof"
  let model ← demand ((proof.text? "model").filter officialPiModel)
    "hw_proof model is not an official Raspberry Pi 2/3/4/5"
  let serial ← demand
    (((proof.text? "serial_commitment").bind fromHex).filter fun serial => !isZero serial)
    "hw_proof serial_commitment missing or malformed"
  require ((block.unsigned? "version").map UInt64.toUInt32 == some 1) "version invalid"
  let height ← demand (block.unsigned? "height") "height does not extend tip"
  let nonce ← demand (block.unsigned? "nonce") "nonce invalid"
  let timestamp ← demand (block.unsigned? "timestamp") "timestamp invalid"
  let difficulty ← demand (block.unsigned? "difficulty") "difficulty mismatch"
  let prevText ← demand (block.text? "prev_block_hash") "prev hash does not link tip"
  let merkleText ← demand (block.text? "merkle_root") "merkle root mismatch"
  let hashText ← demand (block.text? "hash") "pihash missing"
  let coinbase ← demand (block.object? "coinbase") "coinbase missing"
  let wallet ← demand
    ((coinbase.text? "wallet").filter fun wallet => !wallet.isEmpty && wallet.size ≤ 256)
    "coinbase wallet missing"
  return ⟨proof, model, serial, height.toUInt32.toNat, nonce, timestamp, difficulty.toUInt32,
    prevText, merkleText, hashText, coinbase, wallet⟩

/-- The shown name and the payout of the miner. A synced block may keep a
wallet text from before shortnames existed. -/
def submittedMiner (names : NameTable) (localPolicy : Bool) (wallet : Text) :
    Except Refusal (Text × Text) :=
  match names.resolveMiner wallet with
  | .ok miner => .ok miner
  | .error why =>
      if ¬localPolicy then .ok (wallet, wallet)
      else if why = "wallet or miner address required" then
        .error (.reason "coinbase wallet missing")
      else .error (.reason why)

/-- The parent of the block that would follow the tip. -/
def expectPrev (storage : Storage) : Digest :=
  if storage.hasTip then storage.bestBlockHash else Digest.zero

/-- The parent and the height have to be those of the next block. -/
def checkLink (node : Node) (fields : SubmittedFields) : Except Refusal Digest := do
  let prev ← demand ((fromHex fields.prevText).filter (· == expectPrev node.storage))
    "prev hash does not link tip"
  require (fields.height == node.nextHeight) "height does not extend tip"
  return prev

/-- The challenge and serial of the hardware proof, from height 4 on. -/
structure Binding where
  challengeHex : Text
  serialText : Text

/-- The binding of challenge and serial in the hardware proof. -/
def checkBinding (host : Host) (node : Node) (localPolicy : Bool) (fields : SubmittedFields)
    (prev : Digest) : Except Refusal Binding := do
  if fields.height < 4 then return ⟨[], []⟩
  let challenge ← demand ((fields.proof.text? "challenge").filter fun text => !text.isEmpty)
    "hw_proof challenge missing"
  let raw ← demand (fromHex (lowerHex challenge)) "hw_proof challenge mismatch"
  require (!localPolicy || challengeWasIssued node (lowerHex challenge) (toHex prev))
    "hw_proof challenge mismatch"
  let serialText ← demand ((fields.proof.text? "serial").filter piSerialText)
    "hw_proof serial missing or malformed"
  require (host.sha256 (serialText.bytes ++ raw.bytes) == fields.serial)
    "hw_proof serial_commitment does not bind serial and challenge"
  return ⟨lowerHex challenge, serialText⟩

/-- The time of the parent; zero for the first block. -/
def parentTime (storage : Storage) : Except Refusal UInt64 :=
  if storage.hasTip then
    demand ((storage.getHeaderByHash (expectPrev storage)).map BlockHeader.timestamp)
      "timestamp invalid"
  else .ok 0

/-- The difficulty, the time and the coinbase height of the block. -/
def checkStamp (moment : Moment) (node : Node) (fields : SubmittedFields) :
    Except Refusal Unit := do
  require (fields.difficulty == nextDifficulty node.storage) "difficulty mismatch"
  let parent ← parentTime node.storage
  require (parent < fields.timestamp && fields.timestamp ≤ moment.now + 120) "timestamp invalid"
  match fields.coinbase.valueOr "height" Json.toUInt32? 0 with
  | none => .error .thrown
  | some height => require (height.toNat == fields.height) "coinbase missing"

/-! ## Transactions and coinbase -/

/-- One transaction of a block, with its output names resolved. -/
def readTx (host : Host) (names : NameTable) (height : Nat) (txj : Json) : Except Refusal Tx :=
  match parseUserTx host txj height with
  | .error reason => .error (.reason reason)
  | .ok tx => .ok (names.resolveOutputNames host tx)

/-- The transactions of a block. -/
def readTxs (host : Host) (names : NameTable) (height : Nat) (block : Json) :
    Except Refusal (List Tx) :=
  match block.get? "txs" with
  | none => .ok []
  | some .null => .ok []
  | some (.array items) => items.mapM (readTx host names height)
  | some _ => .error (.reason "malformed transaction")

/-- The fees of the transactions; the sum wraps. -/
def feeUnits (txs : List Tx) : UInt64 := txs.foldl (fun total tx => total + tx.fee) 0

/-- One output of the submitted coinbase. -/
def readCbOut (payout : Text) (item : Json) : Except Refusal CbOut :=
  match item.text? "role", item.text? "address", unitsOf item with
  | some role, some address, some units =>
      if address.isEmpty then .error (.reason "coinbase missing")
      else if role = "miner".toList ∧ address ≠ payout then
        .error (.reason "coinbase wallet missing")
      else .ok ⟨role, address, units⟩
  | _, _, _ => .error (.reason "coinbase missing")

/-- The outputs of the submitted coinbase. -/
def readCbOuts (payout : Text) (coinbase : Json) : Except Refusal (List CbOut) :=
  match coinbase.array? "outputs" with
  | some items => items.mapM (readCbOut payout)
  | none =>
      match coinbase.unsigned? "value" with
      | some value => .ok [⟨"miner".toList, payout, value⟩]
      | none => .error (.reason "coinbase missing")

/-- The amounts paid to each role; the sums wrap. -/
structure Paid where
  miner : UInt64 := 0
  validator : UInt64 := 0
  stakers : UInt64 := 0
  loans : UInt64 := 0
  foundation : UInt64 := 0

/-- One output in the sum of the paid amounts. -/
def addPaid (paid : Paid) (out : CbOut) : Except Refusal Paid :=
  if out.role = "miner".toList then .ok { paid with miner := paid.miner + out.units }
  else if out.role = "validator".toList then
    .ok { paid with validator := paid.validator + out.units }
  else if out.role = "stakers".toList then .ok { paid with stakers := paid.stakers + out.units }
  else if out.role = "loans".toList then .ok { paid with loans := paid.loans + out.units }
  else if out.role = "foundation".toList then
    if out.address ≠ foundationPayout then .error (.reason "coinbase foundation address")
    else .ok { paid with foundation := paid.foundation + out.units }
  else .error (.reason "coinbase exceeds emission rules")

/-- The emission rules of the coinbase outputs. -/
def checkPaid (height : Nat) (emission : Emission) (fee : UInt64) (outs : List CbOut) :
    Except Refusal Unit := do
  let paid ← outs.foldlM addPaid {}
  require (!(paid.stakers > emission.stakers || paid.loans > emission.loans ||
    paid.foundation != emission.foundation)) "coinbase exceeds emission rules"
  refuse (coinbaseSubsidyOk height fee paid.miner paid.validator)
  require (height < miner216ActivationHeight || outs.all fun out =>
    out.role != "validator".toList || isPs1Payout out.address) "coinbase validator address"

/-- The coinbase transaction, which has to pay something and to carry its own id. -/
def checkCoinbase (host : Host) (height : Nat) (coinbase : Json) (outs : List CbOut) :
    Except Refusal Tx := do
  let cb := coinbaseFrom host height outs
  require (!cb.outputs.isEmpty) "coinbase missing"
  require ((coinbase.text? "txid").all fun txid => txid == toHex cb.txid) "coinbase missing"
  return cb

/-- The checks of one transaction of a block, on top of the ones before it. -/
def checkTx (host : Host) (node : Node) (localPolicy : Bool) (height : Nat) (prior : List Tx)
    (staged : FlagBook) (names : NameTable) (tx : Tx) : NameTable × Except String FlagBook :=
  let utxo := node.storage.utxo
  match checkSpendable utxo tx height prior (claimRelease tx staged prior) with
  | .error reason => (names, .error reason)
  | .ok () =>
      match verifyInputSignatures host node.wallets utxo tx localPolicy prior with
      | .error reason => (names, .error reason)
      | .ok () =>
          match admitRegister host node.namesFile utxo tx localPolicy prior names with
          | (next, .error reason) => (next, .error reason)
          | (next, .ok ()) =>
              match flagOutputsOk host utxo tx (staged.find tx.flagId) prior with
              | .error reason => (next, .error reason)
              | .ok () => (next, applyFlagTx staged tx height)

/-- The transaction loop of a block. -/
def checkTxs (host : Host) (node : Node) (localPolicy : Bool) (height : Nat) :
    List Tx → List Tx → FlagBook → NameTable → NameTable × Except String FlagBook
  | [], _, staged, names => (names, .ok staged)
  | tx :: rest, prior, staged, names =>
      match checkTx host node localPolicy height prior staged names tx with
      | (next, .error reason) => (next, .error reason)
      | (next, .ok flags) => checkTxs host node localPolicy height rest (prior ++ [tx]) flags next

/-! ## The block as a whole -/

/-- What the checks before the transaction loop compute. -/
structure Draft where
  fields : SubmittedFields
  shown : Text
  prev : Digest
  binding : Binding
  txs : List Tx
  cbOuts : List CbOut
  cb : Tx

/-- The checks before the transaction loop. -/
def checkDraft (host : Host) (moment : Moment) (localPolicy : Bool) (node : Node) (block : Json) :
    Except Refusal Draft := do
  let fields ← readFields block
  let (shown, payout) ← submittedMiner node.names localPolicy fields.wallet
  let prev ← checkLink node fields
  let binding ← checkBinding host node localPolicy fields prev
  checkStamp moment node fields
  let txs ← readTxs host node.names fields.height block
  let cbOuts ← readCbOuts payout fields.coinbase
  checkPaid fields.height (emissionFor fields.height (feeUnits txs)) (feeUnits txs) cbOuts
  let cb ← checkCoinbase host fields.height fields.coinbase cbOuts
  return ⟨fields, shown, prev, binding, txs, cbOuts, cb⟩

/-- The ids that the merkle root of a block commits to. -/
def Draft.ids (draft : Draft) : List Digest := draft.cb.txid :: draft.txs.map Tx.txid

/-- The proof-of-work digest of a block. -/
def Draft.pihash (host : Host) (draft : Draft) (root : Digest) : Digest :=
  let fields := draft.fields
  if fields.height ≥ 5 then
    pihashV2 host 1 draft.prev root fields.timestamp fields.difficulty fields.nonce fields.model
      fields.serial
  else
    pihashV1 host 1 draft.prev root fields.timestamp fields.difficulty fields.nonce fields.model
      fields.serial

/-- The algorithm that a block names for its proof of work. -/
def algorithmOf (block : Json) : Text :=
  ((block.object? "pihash").bind fun pihash => pihash.text? "algorithm").getD []

/-- The merkle root and the proof of work of a block. -/
def checkWork (host : Host) (block : Json) (draft : Draft) : Except Refusal (Digest × Digest) := do
  let root := merkleRoot host draft.ids
  require (fromHex draft.fields.merkleText == some root) "merkle root mismatch"
  require (draft.fields.height < 5 || algorithmOf block == "pihash2".toList)
    "pihash algorithm not pihash2"
  let digest := draft.pihash host root
  let claimed ← demand (fromHex draft.fields.hashText) "pihash missing"
  require (claimed == digest) "pihash mismatch"
  require (Storage.validateBlockPow digest draft.fields.difficulty)
    "pihash does not meet difficulty"
  return (root, digest)

/-- The hardware proof as a stored block keeps it. -/
def storedProof (draft : Draft) : Json :=
  .ofMembers <|
    [("model", .string draft.fields.model),
      ("serial_commitment", .string (toHex draft.fields.serial))] ++
    (if draft.fields.height ≥ 4 then
      [("challenge", .string draft.binding.challengeHex),
        ("serial", .string draft.binding.serialText)]
    else [])

/-- The members that the node writes into a block before it stores it. -/
def storedMembers (draft : Draft) (root digest : Digest) (names : NameTable) :
    List (String × Json) :=
  let fields := draft.fields
  let emission := emissionFor fields.height (feeUnits draft.txs)
  [("version", .unsigned 1), ("height", .unsigned (UInt64.ofNat fields.height)),
    ("prev_block_hash", .string (toHex draft.prev)), ("merkle_root", .string (toHex root)),
    ("timestamp", .unsigned fields.timestamp), ("difficulty", .unsigned fields.difficulty.toUInt64),
    ("nonce", .unsigned fields.nonce), ("hash", .string (toHex digest)),
    ("coinbase", coinbaseBody draft.shown fields.height emission draft.cb draft.cbOuts),
    ("txs", .array (draft.txs.map txToJson)), ("names", names.snapshotIncluding draft.txs),
    ("hw_proof", storedProof draft)]

/-- The JSON of a block as it is stored, with the name table at that point. -/
def storedBlock (block : Json) (draft : Draft) (root digest : Digest) (names : NameTable) : Json :=
  (storedMembers draft root digest names).foldl (fun doc member => doc.set member.1 member.2) block

/-- The header of an accepted block. -/
def Draft.header (draft : Draft) (root digest : Digest) : BlockHeader where
  version := 1
  prevBlockHash := draft.prev
  merkleRoot := root
  timestamp := draft.fields.timestamp
  difficulty := draft.fields.difficulty
  nonce := draft.fields.nonce
  hash := digest
  height := draft.fields.height

/-- A block that passed every check: what the update of the node needs. -/
structure Checked where
  draft : Draft
  root : Digest
  digest : Digest
  stored : Json
  flags : FlagBook

/-- All the checks of `rpc_submitblock` on a block, with the name table after
them. -/
def checkBlock (host : Host) (moment : Moment) (localPolicy : Bool) (node : Node) (block : Json) :
    NameTable × Except Refusal Checked :=
  match checkDraft host moment localPolicy node block with
  | .error refusal => (node.names, .error refusal)
  | .ok draft =>
      match checkTxs host node localPolicy draft.fields.height draft.txs [draft.cb] node.flags
          node.names with
      | (names, .error reason) => (names, .error (.reason reason))
      | (names, .ok flags) =>
          match checkWork host block draft with
          | .error refusal => (names, .error refusal)
          | .ok (root, digest) =>
              let stored := storedBlock block draft root digest names
              if stored.dumpSize > kMaxBlockBytes then
                (names, .error (.reason "block too large"))
              else (names, .ok ⟨draft, root, digest, stored, flags⟩)

/-- One transaction in the update of the node. A failed UTXO update is only
logged. -/
def confirmTx (localPolicy : Bool) (height : Nat) (node : Node) (tx : Tx) : Node :=
  let spent := node.withUtxo ((applyTxUtxos node.storage.utxo tx height).getD node.storage.utxo)
  { spent with
    storage := spent.storage.removeTransaction tx.txid
    names :=
      if tx.reg then
        spent.names.rememberOrKeep tx.name tx.regAddress (nameKind tx.name) (toHex tx.txid)
          !localPolicy
      else spent.names }

/-- The update of the node by a block that is not stored yet. -/
def connectBlock (host : Host) (moment : Moment) (localPolicy : Bool) (node : Node)
    (checked : Checked) : Node :=
  let draft := checked.draft
  let height := draft.fields.height
  let stored := { node with
    storage := node.storage.storeBlockWithHeader checked.digest
      (draft.header checked.root checked.digest) (.doc checked.stored) }
  let retired :=
    if height ≥ 4 ∧ localPolicy then retireChallenge stored draft.binding.challengeHex else stored
  let credits := txCredits draft.cb.txid draft.cb.outputs height
  let paid := retired.withUtxo
    ((applyCoinbaseUtxos retired.storage.utxo credits).getD retired.storage.utxo)
  let confirmed := draft.txs.foldl (confirmTx localPolicy height) paid
  let flagged := { confirmed with flags := checked.flags }
  if draft.txs.isEmpty then flagged
  else saveMempool host moment { flagged with namesFile := some flagged.names.saved }

/-- `rpc_submitblock`. -/
def rpcSubmitblock (host : Host) (moment : Moment) (localPolicy : Bool) (node : Node)
    (params : Json) : Node × Verdict :=
  match asObjectParam host params with
  | .object (member :: members) =>
      match checkBlock host moment localPolicy node (.object (member :: members)) with
      | (names, .error refusal) => ({ node with names := names }, .refused refusal)
      | (names, .ok checked) =>
          let named := { node with names := names }
          match node.storage.blockIndex checked.digest with
          | some _ =>
              let height := ((node.storage.getHeaderByHash checked.digest).map
                BlockHeader.height).getD checked.draft.fields.height
              (named, .accepted checked.digest height true)
          | none =>
              (connectBlock host moment localPolicy named checked,
                .accepted checked.digest checked.draft.fields.height false)
  | _ => (node, .refused (.reason "missing block"))

end PiSecure
