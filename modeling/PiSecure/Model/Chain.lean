import PiSecure.Model.Node

/-! # Replaying the stored chain

Finding the blocks on disk, linking them into a chain, applying a chain to a
reset store, and the two operations built on it: the restore on startup and
the replay of a chain that ends at a given block.
-/

namespace PiSecure

/-- How an operation ended: with success, with failure, or with an exception. -/
inductive Status where
  | done
  | failed
  | thrown
deriving DecidableEq

/-- `FoundBlock`. -/
structure FoundBlock where
  index : Nat
  height : Nat
  prev : Digest
  hash : Digest
  obj : Json

/-! ## Finding blocks -/

/-- One frame of `load_found_blocks`. -/
def foundBlock (host : Host) (index : Nat) (payload : Payload) : Option FoundBlock := do
  let obj ← payload.parse host
  let height ← (obj.get? "height").bind Json.toUInt32?
  let prev ← (obj.text? "prev_block_hash").bind fromHex
  let hash ← (obj.text? "hash").bind fromHex
  return ⟨index, height.toNat, prev, hash, obj⟩

/-- `load_found_blocks`. -/
def loadFoundBlocks (host : Host) (frames : List Payload) : List FoundBlock :=
  (frames.zipIdx).filterMap fun (payload, index) => foundBlock host index payload

/-- One block in the map of `chain_ending_at`: of a hash that is stored more
than once, the block stored first counts. -/
def firstStored (hash : Digest) (best : Option FoundBlock) (block : FoundBlock) :
    Option FoundBlock :=
  if block.hash ≠ hash then best
  else
    match best with
    | none => some block
    | some earlier => if block.index < earlier.index then some block else best

/-- The entry of a hash in the map of `chain_ending_at`. -/
def byHash (found : List FoundBlock) (hash : Digest) : Option FoundBlock :=
  found.foldl (firstStored hash) none

/-- The walk from a block back to the block without a parent, oldest first. -/
def walkBack (found : List FoundBlock) : Nat → Digest → Option (List FoundBlock)
  | 0, _ => none
  | fuel + 1, cursor =>
      match byHash found cursor with
      | none => none
      | some block =>
          if isZero block.prev then some [block]
          else (walkBack found fuel block.prev).map (· ++ [block])

/-- Whether blocks follow each other from an expected height and parent. -/
def linked : List FoundBlock → Nat → Digest → Bool
  | [], _, _ => true
  | block :: rest, expect, expectPrev =>
      block.height = expect && block.prev = expectPrev && linked rest (expect + 1) block.hash

/-- `chain_ending_at`; empty when the blocks do not form a chain from height 1. -/
def chainEndingAt (found : List FoundBlock) (tip : Digest) : List FoundBlock :=
  match walkBack found (found.length + 1) tip with
  | none => []
  | some chain => if linked chain 1 Digest.zero then chain else []

/-- One candidate of `choose_longest_chain`. -/
def betterChain (found : List FoundBlock) (best : Option (FoundBlock × Nat))
    (candidate : FoundBlock) : Option (FoundBlock × Nat) :=
  let chain := chainEndingAt found candidate.hash
  match chain.getLast? with
  | none => best
  | some tip =>
      if tip.height ≠ chain.length then best
      else
        match best with
        | none => some (candidate, tip.height)
        | some (current, height) =>
            if tip.height > height ∨ (tip.height = height ∧ candidate.index < current.index) then
              some (candidate, tip.height)
            else best

/-- `choose_longest_chain`. -/
def chooseLongestChain (found : List FoundBlock) : List FoundBlock :=
  match found.foldl (betterChain found) none with
  | none => []
  | some (best, _) => chainEndingAt found best.hash

/-! ## Applying a chain -/

/-- The header of a stored block; nothing when a field has the wrong type. -/
def storedHeader (item : FoundBlock) : Option BlockHeader := do
  let version ← item.obj.valueOr "version" Json.toUInt32? 1
  let merkleRoot ← item.obj.valueOr "merkle_root" Json.asText? (List.replicate 64 '0')
  let timestamp ← item.obj.valueOr "timestamp" Json.toUInt64? 0
  let difficulty ← item.obj.valueOr "difficulty" Json.toUInt32? 0
  let nonce ← item.obj.valueOr "nonce" Json.toUInt64? 0
  return ⟨version, item.prev, fromHexInto merkleRoot, timestamp, difficulty, nonce, item.hash,
    item.height⟩

/-- `units_of`. -/
def unitsOf (item : Json) : Option UInt64 :=
  match item.unsigned? "units" with
  | some units => some units
  | none => item.unsigned? "value"

/-- The credits of coinbase outputs from an output index on. -/
def outputCredits (txid : Digest) (height : Nat) :
    List Json → UInt32 → Option (List Storage.UtxoCredit)
  | [], _ => some []
  | output :: rest, vout =>
      match unitsOf output with
      | none => outputCredits txid height rest (vout + 1)
      | some units =>
          if units = 0 then outputCredits txid height rest (vout + 1)
          else
            match output.valueOr "address" Json.asText? [],
              outputCredits txid height rest (vout + 1) with
            | some address, some credits =>
                some (((txid, vout), ⟨units, address, height⟩) :: credits)
            | _, _ => none

/-- The credits of the coinbase of a stored block; nothing when a field throws. -/
def coinbaseCredits (item : FoundBlock) : Option (List Storage.UtxoCredit) :=
  match item.obj.object? "coinbase" with
  | none => some []
  | some coinbase =>
      match (coinbase.text? "txid").bind fromHex with
      | none => some []
      | some txid =>
          match coinbase.array? "outputs" with
          | some outputs => outputCredits txid item.height outputs 0
          | none =>
              match coinbase.valueOr "value" Json.toUInt64? 0,
                coinbase.valueOr "wallet" Json.asText? [] with
              | some value, some wallet => some [((txid, 0), ⟨value, wallet, item.height⟩)]
              | _, _ => none

/-- The credits of the outputs of a transaction in a block. -/
def txCredits (txid : Digest) (outputs : List TxOut) (height : Nat) : List Storage.UtxoCredit :=
  outputs.zipIdx.map fun (output, vout) =>
    ((txid, UInt32.ofNat vout), ⟨output.value, output.address, height⟩)

/-- `apply_utxos` for a transaction in a block. -/
def applyTxUtxos (utxo : UtxoSet) (tx : Tx) (height : Nat) : Option UtxoSet :=
  Storage.applyUtxos utxo (tx.inputs.map TxIn.outpoint) (txCredits tx.txid tx.outputs height)

/-- `apply_utxos` for coinbase credits, of which there may be none. -/
def applyCoinbaseUtxos (utxo : UtxoSet) (credits : List Storage.UtxoCredit) : Option UtxoSet :=
  if credits.isEmpty then some utxo else Storage.applyUtxos utxo [] credits

namespace Node

/-- The node with another UTXO set. -/
def withUtxo (node : Node) (utxo : UtxoSet) : Node :=
  { node with storage := { node.storage with utxo := utxo } }

end Node

/-- One transaction of `apply_chain`; one that no longer parses is skipped. -/
def replayTx (host : Host) (height : Nat) (node : Node) (txj : Json) : Node × Status :=
  match parseUserTx host txj height with
  | .error _ => (node, .done)
  | .ok tx =>
      match applyTxUtxos node.storage.utxo tx height with
      | none => (node, .failed)
      | some utxo =>
          match applyFlagTx node.flags tx height with
          | .error _ => (node.withUtxo utxo, .failed)
          | .ok flags => ({ node.withUtxo utxo with flags := flags }, .done)

/-- The transactions of a block in `apply_chain`. -/
def replayTxs (host : Host) (height : Nat) (node : Node) : List Json → Node × Status
  | [] => (node, .done)
  | txj :: rest =>
      match replayTx host height node txj with
      | (next, .done) => replayTxs host height next rest
      | stopped => stopped

/-- `absorb_block_names` at the end of a block. -/
def replayNames (node : Node) (block : Json) : Node × Status :=
  let (names, complete) := node.names.absorbBlock block
  ({ node with names := names }, if complete then .done else .thrown)

/-- One block of `apply_chain`. -/
def applyBlock (host : Host) (node : Node) (item : FoundBlock) : Node × Status :=
  match storedHeader item with
  | none => (node, .thrown)
  | some header =>
      match node.storage.indexExistingBlock item.index header with
      | none => (node, .failed)
      | some storage =>
          let indexed := { node with storage := storage }
          match coinbaseCredits item with
          | none => (indexed, .thrown)
          | some credits =>
              match applyCoinbaseUtxos storage.utxo credits with
              | none => (indexed, .failed)
              | some utxo =>
                  match replayTxs host item.height (indexed.withUtxo utxo)
                      ((item.obj.array? "txs").getD []) with
                  | (next, .done) => replayNames next item.obj
                  | stopped => stopped

/-- `apply_chain`. -/
def applyChain (host : Host) (node : Node) : List FoundBlock → Node × Status
  | [] => (node, .done)
  | item :: rest =>
      match applyBlock host node item with
      | (next, .done) => applyChain host next rest
      | stopped => stopped

/-! ## Restore and replay -/

/-- `restore_chain`. -/
def restoreChain (host : Host) (moment : Moment) (node : Node) : Node × Status :=
  let named := { node with flags := [], names := node.names.loadFile node.namesFile }
  let chosen := chooseLongestChain (loadFoundBlocks host node.storage.frames)
  let reset := { named with storage := node.storage.resetActiveChain }
  match applyChain host reset chosen with
  | (next, .done) => (loadMempool host moment next, .done)
  | stopped => stopped

/-- Whether the scan of `blk*.dat` finds a frame again: it starts with a brace. -/
def Payload.scanned : Payload → Bool
  | .doc json => json.isObject
  | .raw bytes => bytes.head? == some 123

/-- The node of a new process on the data directory of an old one. -/
def Node.reopen (node : Node) : Node :=
  { Node.empty node.wallets with
    storage := Storage.reopen (node.storage.frames.filter Payload.scanned)
    mempoolFile := node.mempoolFile
    namesFile := node.namesFile }

/-- A restart: a new process opens the store and restores the chain. -/
def restart (host : Host) (moment : Moment) (node : Node) : Node × Status :=
  restoreChain host moment node.reopen

/-- `rpc_replay_chain`. -/
def rpcReplayChain (host : Host) (moment : Moment) (node : Node) (tipHash : Digest) :
    Node × Status :=
  let chosen := chainEndingAt (loadFoundBlocks host node.storage.frames) tipHash
  if (chosen.getLast?.map FoundBlock.hash) ≠ some tipHash then (node, .failed)
  else
    let reset := { node with flags := [], storage := node.storage.resetActiveChain }
    match applyChain host reset chosen with
    | (next, .done) => (loadMempool host moment next, .done)
    | stopped => stopped

end PiSecure
