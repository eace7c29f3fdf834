import PiSecure.Model.Submit

/-! # The other calls of the node

Sending a transaction, handing out a template, and moving to the chain of a
peer.
-/

namespace PiSecure

/-! ## Sending a transaction -/

/-- The staged flags of `rpc_sendtransaction`: the book with every flag of the
pending transactions, whether its own checks hold or not. -/
def stagePending (book : FlagBook) (prior : List Tx) (height : Nat) : FlagBook :=
  prior.foldl (fun staged earlier =>
    match applyFlagTx staged earlier height with
    | .ok next => next
    | .error _ => staged) book

/-- The checks of `rpc_sendtransaction` on a transaction with inputs. -/
def checkPending (host : Host) (node : Node) (height : Nat) (prior : List Tx) (staged : FlagBook)
    (tx : Tx) : NameTable × Except String FlagBook :=
  match checkTx host node true height prior staged node.names tx with
  | (names, .error reason) => (names, .error reason)
  | (names, .ok flags) =>
      if tx.inputs.any (spentBy prior) then (names, .error "duplicate transaction")
      else (names, .ok flags)

/-- A transaction that is admitted: it joins the mempool, the staged flags
become the book, and its name is remembered. -/
def admitTx (host : Host) (moment : Moment) (node : Node) (flags : FlagBook) (tx : Tx) :
    Node × Except String Digest :=
  let pooled := { node with storage := node.storage.addTransaction (pendingEntry tx) }
  let saved := { saveMempool host moment pooled with flags := flags }
  if ¬tx.reg then (saved, .ok tx.txid)
  else
    match saved.names.remember tx.name tx.regAddress (nameKind tx.name) (toHex tx.txid) false with
    | .error reason =>
        ({ saved with storage := saved.storage.removeTransaction tx.txid }, .error reason)
    | .ok names => ({ saved with names := names, namesFile := some names.saved }, .ok tx.txid)

/-- `rpc_sendtransaction`. -/
def rpcSendtransaction (host : Host) (moment : Moment) (node : Node) (params : Json) :
    Node × Except String Digest :=
  match asObjectParam host params with
  | .object members =>
      match parseUserTx host (.object members) node.nextHeight with
      | .error reason => (node, .error reason)
      | .ok parsed =>
          let tx := node.names.resolveOutputNames host parsed
          if node.storage.hasTransaction tx.txid then (node, .error "duplicate transaction")
          else
            let prior := mempoolTxs host moment node
            let staged := stagePending node.flags prior node.nextHeight
            if tx.inputs.isEmpty then admitTx host moment node staged tx
            else
              match checkPending host node node.nextHeight prior staged tx with
              | (names, .error reason) => ({ node with names := names }, .error reason)
              | (names, .ok flags) => admitTx host moment { node with names := names } flags tx
  | _ => (node, .error "malformed transaction")

/-! ## Templates -/

/-- `wallet_from_params`. -/
def walletFromParams (host : Host) (params : Json) : Text :=
  match params with
  | .array [.string wallet] => wallet
  | _ =>
      match asObjectParam host params with
      | .object members =>
          match (Json.object members).text? "wallet" with
          | some wallet => wallet
          | none => ((Json.object members).text? "miner").getD []
      | _ => []

/-- The validator payout of a template: the foundation unless one is named. -/
def templateValidator (host : Host) (names : NameTable) (params : Json) :
    Except Refusal Text :=
  match (asObjectParam host params).get? "validator" with
  | none | some .null => .ok foundationPayout
  | some (.string asked) =>
      if asked.isEmpty then .ok foundationPayout
      else
        match names.resolveMiner asked with
        | .error _ => .error .thrown
        | .ok (_, payout) => if isPs1Payout payout then .ok payout else .error .thrown
  | some _ => .error .thrown

/-- The time of a template: the clock, or one second past the parent when the
clock has not passed it. -/
def templateStamp (moment : Moment) (storage : Storage) : Except Refusal UInt64 :=
  let parent :=
    if storage.hasTip then storage.getHeaderByHash storage.bestBlockHash else none
  match parent with
  | none => .ok moment.now
  | some header =>
      if moment.now ≤ header.timestamp then
        if header.timestamp + 1 > moment.now + 120 then .error (.reason "clock behind tip")
        else .ok (header.timestamp + 1)
      else .ok moment.now

/-- The transactions of a template that a block can contain. -/
def spendable (txs : List Tx) : List Tx := txs.filter fun tx => !tx.inputs.isEmpty

/-- What `rpc_getblocktemplate` computes before it writes the document. -/
structure Template where
  height : Nat
  prev : Digest
  stamp : UInt64
  difficulty : UInt32
  emission : Emission
  shown : Text
  payout : Text
  txs : List Tx
  cbOuts : List CbOut
  cb : Tx
  root : Digest

/-- The template for a miner and a validator on the state of a node. -/
def draftTemplate (host : Host) (moment : Moment) (node : Node) (params : Json) :
    Except Refusal Template := do
  let (shown, payout) ←
    match node.names.resolveMiner (walletFromParams host params) with
    | .error _ => .error .thrown
    | .ok miner => .ok miner
  let validator ← templateValidator host node.names params
  let height := node.storage.bestHeight + 1
  let txs := mempoolTxs host moment node
  let emission := emissionFor height (feeUnits (spendable txs))
  let cbOuts := templateCoinbase payout validator emission
  let cb := coinbaseFrom host height cbOuts
  let stamp ← templateStamp moment node.storage
  return {
    height := height
    prev := expectPrev node.storage
    stamp := stamp
    difficulty := nextDifficulty node.storage
    emission := emission
    shown := shown
    payout := payout
    txs := txs
    cbOuts := cbOuts
    cb := cb
    root := merkleRoot host (cb.txid :: (spendable txs).map Tx.txid) }

/-- The hardware proof of a template, to be filled in by the miner. -/
def templateProof (height : Nat) (challenge : Text) : Json :=
  .ofMembers <|
    [("model", .string []), ("serial_commitment", .string [])] ++
    (if height ≥ 4 then
      [("challenge", .string challenge),
        ("serial_rule", .string "sha256(serial_utf8 || challenge_bytes)".toList)]
    else [])

/-- The proof-of-work parameters of a template. -/
def templatePihash (height : Nat) : Json :=
  if height ≥ 5 then
    .ofMembers
      [("algorithm", .string "pihash2".toList), ("domain", .string "PiHash2".toList),
        ("rounds", .unsigned 1), ("memory_mb", .unsigned 32),
        ("difficulty_means", .string "leading zero bits".toList)]
  else
    .ofMembers
      [("algorithm", .string "sha256-pihash1".toList), ("domain", .string "PiHash1".toList),
        ("difficulty_means", .string "leading zero bits".toList)]

/-- The document of a template. -/
def Template.json (template : Template) (challenge : Text) : Json :=
  .ofMembers
    [("version", .unsigned 1),
      ("height", .unsigned (UInt64.ofNat template.height)),
      ("prev_block_hash", .string (toHex template.prev)),
      ("timestamp", .unsigned template.stamp),
      ("difficulty", .unsigned template.difficulty.toUInt64),
      ("subsidy_units", .unsigned template.emission.subsidy),
      ("coinbase", coinbaseBody template.shown template.height template.emission template.cb
        template.cbOuts),
      ("coinbase_txid", .string (toHex template.cb.txid)),
      ("merkle_root", .string (toHex template.root)),
      ("txs", .array (template.txs.map txToJson)),
      ("hw_proof", templateProof template.height challenge),
      ("pihash", templatePihash template.height)]

/-- `rpc_getblocktemplate`. -/
def rpcGetblocktemplate (host : Host) (moment : Moment) (node : Node) (params : Json) :
    Node × Except Refusal Json :=
  match draftTemplate host moment node params with
  | .error refusal => (node, .error refusal)
  | .ok template =>
      if template.height ≥ 4 then
        let (challenge, next) := challengeForTemplate moment node (toHex template.prev)
          (toHex template.root) template.payout
        (next, .ok (template.json challenge))
      else (node, .ok (template.json []))

/-! ## The chain of a peer -/

/-- The blocks of a peer, one after the other, up to the first that is not
accepted. -/
def adoptBlocks (host : Host) (moments : Nat → Moment) : Nat → Node → List Json → Node × Status
  | _, node, [] => (node, .done)
  | turn, node, block :: rest =>
      match rpcSubmitblock host (moments turn) false node block with
      | (next, .accepted _ _ _) => adoptBlocks host moments (turn + 1) next rest
      | (next, .refused (.reason _)) => (next, .failed)
      | (next, .refused .thrown) => (next, .thrown)

/-- The end of an adoption: the replay of the old tip when a block was
rejected, and the hashes to gossip when none was. -/
def settleAdoption (host : Host) (moment : Moment) (oldTip : Option Digest) (blocks : List Json) :
    Node × Status → Node × Status
  | (node, .done) =>
      if blocks.all fun block => (block.valueOr "hash" Json.asText? []).isSome then (node, .done)
      else (node, .thrown)
  | (node, .failed) =>
      match oldTip with
      | none => (node, .failed)
      | some tip =>
          match rpcReplayChain host moment node tip with
          | (final, .thrown) => (final, .thrown)
          | (final, _) => (final, .failed)
  | (node, .thrown) => (node, .thrown)

/-- The height of the tip; zero without one. -/
def localHeight (storage : Storage) : Nat := if storage.hasTip then storage.bestHeight else 0

/-- The tip of the active chain. -/
def tipOf (storage : Storage) : Option Digest :=
  if storage.hasTip then some storage.bestBlockHash else none

/-- The first half of `rpc_adopt_peer_chain`: the node that the blocks are
submitted to, which is at the ancestor. An error is an end of the call that
leaves the node alone. -/
def adoptionStart (host : Host) (moment : Moment) (node : Node) (ancestor : Digest)
    (blocks : List Json) : Except Status (Node × Status) :=
  match blocks.getLast? with
  | none => .error .failed
  | some last =>
      if ¬last.isObject then .error .failed
      else
        match last.valueOr "height" Json.toUInt32? 0 with
        | none => .error .thrown
        | some peerHeight =>
            if peerHeight.toNat ≤ localHeight node.storage then .error .failed
            else if tipOf node.storage = some ancestor then .ok (node, .done)
            else .ok (rpcReplayChain host moment node ancestor)

/-- `rpc_adopt_peer_chain`. It returns true when it is done and false when it
failed. -/
def rpcAdoptPeerChain (host : Host) (moments : Nat → Moment) (node : Node) (ancestor : Digest)
    (blocks : List Json) : Node × Status :=
  match adoptionStart host (moments 0) node ancestor blocks with
  | .error status => (node, status)
  | .ok (based, .done) =>
      settleAdoption host (moments (blocks.length + 1)) (tipOf node.storage) blocks
        (adoptBlocks host moments 1 based blocks)
  | .ok stopped => stopped

end PiSecure
