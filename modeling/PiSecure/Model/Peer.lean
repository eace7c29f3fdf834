import PiSecure.Model.Rpc

/-! # Messages of a peer

How `p2p.cpp` takes in a block and a transaction. A block body is either JSON,
which is submitted, or binary, which only has its own header to meet.
-/

namespace PiSecure

/-- The number that a little-endian field stands for. -/
def readLe : Bytes → Nat
  | [] => 0
  | byte :: rest => byte.toNat + 256 * readLe rest

/-- The field of `count` bytes at an offset of a payload. -/
def field (payload : Bytes) (offset count : Nat) : Bytes := (payload.drop offset).take count

/-- The header at the start of a binary block body; its height is not part of it. -/
def binaryHeader (host : Host) (payload : Bytes) : BlockHeader where
  version := UInt32.ofNat (readLe (field payload 0 4))
  prevBlockHash := Digest.ofPrefix (field payload 4 32)
  merkleRoot := Digest.ofPrefix (field payload 36 32)
  timestamp := UInt64.ofNat (readLe (field payload 68 8))
  difficulty := UInt32.ofNat (readLe (field payload 76 4))
  nonce := UInt64.ofNat (readLe (field payload 80 8))
  hash := host.sha256 (payload.take 112)
  height := 0

/-- The header that `handleBlock` stores for a binary body; nothing when a
check fails. -/
def storableHeader (host : Host) (storage : Storage) (payload : Bytes) : Option BlockHeader :=
  if payload.length < 112 then none
  else
    let header := binaryHeader host payload
    if ¬Storage.validateBlockPow header.hash header.difficulty then none
    else
      match storage.getHeaderByHash header.prevBlockHash with
      | none => none
      | some prevHeader =>
          let placed := { header with height := prevHeader.height + 1 }
          if Storage.validateBlockHeader placed prevHeader then some placed else none

/-- Whether a rejection means that a block does not follow the tip. -/
def offTip (reason : String) : Bool :=
  occursIn "does not link".toList reason.toList || occursIn "does not extend".toList reason.toList

/-- The JSON branch of `handleBlock`. For a block off the tip the server may
adopt a chain that it holds from its peers. -/
def handleJsonBlock (host : Host) (moments : Nat → Moment) (held : Option (Digest × List Json))
    (node : Node) (block : Json) : Node :=
  match rpcSubmitblock host (moments 0) false node block with
  | (next, .refused (.reason reason)) =>
      if offTip reason ∧ (block.valueOr "hash" Json.asText? []).isSome then
        match held with
        | none => next
        | some (ancestor, blocks) =>
            (rpcAdoptPeerChain host (fun turn => moments (turn + 1)) next ancestor blocks).1
      else next
  | (next, _) => next

/-- Whether a block body goes to the JSON branch. -/
def isJsonBody (payload : Bytes) : Bool := payload.head? == some 123

/-- `handleBlock`. -/
def handleBlock (host : Host) (moments : Nat → Moment) (held : Option (Digest × List Json))
    (node : Node) (payload : Bytes) : Node :=
  if isJsonBody payload then
    if payload.length > kMaxBlockBytes then node
    else
      match host.parse payload with
      | none => node
      | some block => handleJsonBlock host moments held node block
  else
    match storableHeader host node.storage payload with
    | none => node
    | some header =>
        { node with storage := node.storage.storeBlockWithHeader header.hash header (.raw payload) }

/-- `handleTx`: any payload of a bounded size joins the mempool. -/
def handleTx (host : Host) (node : Node) (payload : Bytes) : Node :=
  let hash := host.sha256 payload
  let inputs :=
    if isJsonBody payload then
      (((host.parse payload).bind fun obj => obj.array? "inputs").map List.length).getD 0
    else 0
  if node.storage.hasTransaction hash ∨ payload.length > kMaxTxJsonBytes ∨
      inputs > kMaxTxInputs then
    node
  else { node with storage := node.storage.addTransaction ⟨hash, .raw payload⟩ }

end PiSecure
