import PiSecure.Model.Spend

/-! # The node and its mempool

The state behind the RPC calls: the store, the global flag book and name table,
the challenge cache and the JSON files of the data directory. Here are the
challenge cache and the mempool: in which order pending transactions are
offered, how they are saved, and which are kept on reload.
-/

namespace PiSecure

/-- The state of a running node. A JSON file is kept as the document it parses
to, and as nothing when it is missing or does not parse. -/
structure Node where
  storage : Storage
  flags : FlagBook
  names : NameTable
  challenges : AList fun _ : Text => Text
  outstanding : AList fun _ : Text => Text
  mempoolFile : Option Json
  namesFile : Option Json
  wallets : Wallets

/-- What a call takes from outside the node: the clock, the random bytes, and
the order in which the mempool's hash map is walked. -/
structure Moment where
  now : UInt64
  fresh : Option Digest
  listing : Mempool → List Transaction
  listing_perm : ∀ pool : Mempool, (listing pool).Perm (pool.entries.map Sigma.snd)

namespace Node

/-- A node on an empty data directory, with the given key files. -/
def empty (wallets : Wallets) : Node where
  storage := Storage.empty
  flags := []
  names := []
  challenges := ∅
  outstanding := ∅
  mempoolFile := none
  namesFile := none
  wallets := wallets

/-- The height of the block that would follow the tip. -/
def nextHeight (node : Node) : Nat :=
  if node.storage.hasTip then node.storage.bestHeight + 1 else 1

end Node

/-! ## Challenges -/

/-- The entries of a map that satisfy a test. -/
def keepEntries (map : AList fun _ : Text => Text) (keep : Text → Text → Bool) :
    AList fun _ : Text => Text :=
  ⟨map.entries.filter fun entry => keep entry.1 entry.2,
    List.NodupKeys.sublist List.filter_sublist map.nodupKeys⟩

/-- The key of a template in `g_outstanding`. -/
def challengeKey (tip merkle miner : Text) : Text := tip ++ '|' :: merkle ++ '|' :: miner

/-- `forget_tip_locked`. -/
def forgetTip (node : Node) (tip : Text) : Node :=
  { node with
    challenges := keepEntries node.challenges fun _ issuedFor => issuedFor != tip
    outstanding := keepEntries node.outstanding fun key _ => !(tip ++ ['|']).isPrefixOf key }

/-- `challenge_for_template`; the empty text when no random bytes are drawn. -/
def challengeForTemplate (moment : Moment) (node : Node) (tip merkle miner : Text) : Text × Node :=
  match node.outstanding.lookup (challengeKey tip merkle miner) with
  | some found => (found, node)
  | none =>
      match moment.fresh with
      | none => ([], node)
      | some raw =>
          (toHex raw, { node with
            challenges := node.challenges.insert (toHex raw) tip
            outstanding := node.outstanding.insert (challengeKey tip merkle miner) (toHex raw) })

/-- `challenge_was_issued`. -/
def challengeWasIssued (node : Node) (hex tip : Text) : Bool :=
  node.challenges.lookup hex == some tip

/-- `retire_challenge`. -/
def retireChallenge (node : Node) (hex : Text) : Node :=
  match node.challenges.lookup hex with
  | none => node
  | some tip => forgetTip node tip

/-! ## Pending transactions -/

/-- `get_mempool_transactions`, at most 1000. -/
def mempoolTransactions (moment : Moment) (storage : Storage) : List Transaction :=
  (moment.listing storage.mempool).take 1000

/-- A mempool entry as the next block reads it, under its stored id. -/
def parsePending (host : Host) (height : Nat) (stored : Transaction) : Option Tx :=
  match stored.data.parse host with
  | none => none
  | some obj =>
      match parseUserTx host obj height with
      | .error _ => none
      | .ok tx => some { tx with txid := stored.hash }

/-- Whether a transaction waits for a pending one that is not placed yet. -/
def waits (txs : List Tx) (used : List Nat) (index : Nat) : Bool :=
  ((txs[index]?.map Tx.inputs).getD []).any fun input =>
    (List.range txs.length).any fun other =>
      other != index && !used.contains other && (txs[other]?.map Tx.txid) == some input.prev

/-- One pass of the ordering loop over all indices. -/
def orderPass (txs : List Tx) (used : List Nat) : List Nat :=
  (List.range txs.length).foldl
    (fun used index =>
      if used.contains index || waits txs used index then used else used ++ [index]) used

/-- The ordering loop: passes while they make progress. -/
def orderLoop (txs : List Tx) : Nat → List Nat → List Nat
  | 0, used => used
  | fuel + 1, used =>
      let next := orderPass txs used
      if next.length = used.length then used else orderLoop txs fuel next

/-- The order in which `mempool_txs` offers transactions: parents first, then
what is left of cycles. -/
def orderTxs (txs : List Tx) : List Tx :=
  let used := orderLoop txs (txs.length + 1) []
  let left := (List.range txs.length).filter fun index => !used.contains index
  (used ++ left).filterMap fun index => txs[index]?

/-- `mempool_txs`. -/
def mempoolTxs (host : Host) (moment : Moment) (node : Node) : List Tx :=
  orderTxs ((mempoolTransactions moment node.storage).filterMap
    (parsePending host node.nextHeight))

/-- `save_mempool`. -/
def saveMempool (host : Host) (moment : Moment) (node : Node) : Node :=
  { node with
    mempoolFile := some (.array ((mempoolTransactions moment node.storage).filterMap fun stored =>
      stored.data.parse host)) }

/-- The mempool entry of an admitted transaction. -/
def pendingEntry (tx : Tx) : Transaction := ⟨tx.txid, .doc (txToJson tx)⟩

/-- The flag book after the checks of one entry in `load_mempool`. -/
def reloadChecks (host : Host) (node : Node) (height : Nat) (tx : Tx) : Except String FlagBook :=
  match checkSpendable node.storage.utxo tx height [] (claimRelease tx node.flags []) with
  | .error reason => .error reason
  | .ok () =>
      match verifyInputSignatures host node.wallets node.storage.utxo tx true [] with
      | .error reason => .error reason
      | .ok () =>
          match flagOutputsOk host node.storage.utxo tx (node.flags.find tx.flagId) [] with
          | .error reason => .error reason
          | .ok () => applyFlagTx node.flags tx height

/-- One entry of `load_mempool`: the node, and whether the entry is kept. -/
def reloadEntry (host : Host) (height : Nat) (node : Node) (obj : Json) : Node × Bool :=
  match parseUserTx host obj height with
  | .error _ => (node, false)
  | .ok parsed =>
      let tx := node.names.resolveOutputNames host parsed
      if node.storage.hasTransaction tx.txid ∨ tx.inputs.isEmpty then (node, false)
      else
        match reloadChecks host node height tx with
        | .error _ => (node, false)
        | .ok flags =>
            ({ node with
              flags := flags
              storage := node.storage.addTransaction (pendingEntry tx) }, true)

/-- The entries of `load_mempool`, with the number of those kept. -/
def reloadEntries (host : Host) (height : Nat) (node : Node) : List Json → Node × Nat
  | [] => (node, 0)
  | obj :: rest =>
      let (next, kept) := reloadEntry host height node obj
      let (final, more) := reloadEntries host height next rest
      (final, (if kept then 1 else 0) + more)

/-- `load_mempool`. -/
def loadMempool (host : Host) (moment : Moment) (node : Node) : Node :=
  match node.mempoolFile.bind Json.asArray? with
  | none => node
  | some entries =>
      let (final, kept) := reloadEntries host node.nextHeight node entries
      if kept ≠ entries.length then saveMempool host moment final else final

end PiSecure
