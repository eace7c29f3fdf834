import PiSecure.Theory.Books

/-! # A stored block applies

The transaction loop checks a block against the coins before it and the
transactions before each one; storing it changes the coins transaction by
transaction. What the loop lets through never fails to apply, and the coins
after it are those before it with everything the block creates, without
everything it spends.
-/

namespace PiSecure

variable {host : Host}

/-- The calls of `apply_utxos` for a block: for its coinbase, and for each of its
transactions on what the calls before it left. -/
def applyBlockUtxos (utxo : UtxoSet) (cb : Tx) (txs : List Tx) (height : Nat) : Option UtxoSet :=
  (applyCoinbaseUtxos utxo (txCredits cb.txid cb.outputs height)).bind fun paid =>
    txs.foldlM (fun coins tx => applyTxUtxos coins tx height) paid

/-- What a block creates at its height. -/
def blockCredits (cb : Tx) (txs : List Tx) (height : Nat) : List Storage.UtxoCredit :=
  (cb :: txs).flatMap fun tx => txCredits tx.txid tx.outputs height

/-- What the transactions of a block spend. -/
def blockSpends (txs : List Tx) : List Outpoint :=
  txs.flatMap fun tx => tx.inputs.map TxIn.outpoint

/-- Applying a block is posting its entries. -/
theorem applyBlockUtxos_eq (utxo : UtxoSet) {cb : Tx} (txs : List Tx) (height : Nat)
    (inputs : cb.inputs = []) :
    applyBlockUtxos utxo cb txs height = Ledger.postAll utxo (blockEntries cb txs height) := by
  rw [applyBlockUtxos, applyCoinbaseUtxos_eq utxo height inputs, blockEntries, Ledger.postAll]
  refine congrArg (Option.bind _) (funext fun paid => ?_)
  induction txs generalizing paid with
  | nil => rfl
  | cons tx rest ih =>
      rw [List.foldlM_cons, List.map_cons, Ledger.postAll, applyTxUtxos_eq]
      exact congrArg (Option.bind _) (funext ih)

theorem created_blockEntries (cb : Tx) (txs : List Tx) (height : Nat) :
    (blockEntries cb txs height).flatMap Ledger.Entry.created = blockCredits cb txs height := by
  change ((cb :: txs).map fun tx => entryOf tx height).flatMap Ledger.Entry.created = _
  rw [List.flatMap_map, blockCredits]
  simp only [entryOf_created]

theorem spends_blockEntries {cb : Tx} (txs : List Tx) (height : Nat) (inputs : cb.inputs = []) :
    (blockEntries cb txs height).flatMap Ledger.Entry.spends = blockSpends txs := by
  rw [blockEntries, List.flatMap_cons, List.flatMap_map, entryOf, inputs]
  rfl

/-- **A stored block applies.** In any state that accepted blocks lead to, storing
a block that passed applies its coinbase and each of its transactions, and leaves
the coins with what the block creates and without what it spends. -/
theorem stored_block_applies {wallets : Wallets} {calls : List Call} {log : List (Accepted host)}
    {node : Node}
    (ran : (nodeMachine host).Runs (fun state call => Stable.storesBinary host state call = false)
      (Node.empty wallets) calls log node)
    {moment : Moment} {localPolicy : Bool} {params : Json} {accepted : Accepted host}
    (passed : acceptance host moment localPolicy node params = some accepted)
    (fresh : node.storage.blockIndex accepted.hash = none)
    (free : CollisionFree (logTxs (log ++ [accepted]))) :
    let coins := (rpcSubmitblock host moment localPolicy node params).1.storage.utxo
    applyBlockUtxos node.storage.utxo accepted.cb accepted.txs accepted.height = some coins ∧
      coins = Ledger.spend
        (Ledger.create node.storage.utxo
          (blockCredits accepted.cb accepted.txs accepted.height))
        (blockSpends accepted.txs) := by
  have grounded := Grounded.run ran
  have above := grounded.sourced.traced.above passed
  have spendless := accepted.cb_shape.2.2.1
  obtain ⟨book, booked⟩ := grounded.booked free.front
  obtain ⟨posted, after⟩ := grounded.connect passed (above ▸ Nat.lt_succ_self _) free booked
  have entries : ((accepted.cb :: accepted.txs).map fun tx => (tx, accepted.height)).map bookEntry =
      blockEntries accepted.cb accepted.txs accepted.height := by
    rw [List.map_map]
    rfl
  have distinct := after.distinct
  rw [List.map_append, entries] at distinct
  have submitted := rpcSubmitblock_of_some passed
  rw [fresh] at submitted
  rw [submitted]
  refine ⟨(applyBlockUtxos_eq _ _ _ spendless).trans posted, ?_⟩
  have settled := Ledger.postAll_eq posted fun _ _ _ split =>
    booked.journal.forward posted distinct split
  rwa [created_blockEntries, spends_blockEntries _ _ spendless] at settled

theorem stored_block_applies_spending :
    ∃ accepted : Accepted storedHost,
      acceptance storedHost sampleMoment false (openedNode storedHost)
        spendingBlock.json = some accepted ∧
      accepted.txs = [spendingTx] ∧
      applyBlockUtxos (openedNode storedHost).storage.utxo accepted.cb accepted.txs
        accepted.height = some (spentNode storedHost).storage.utxo := by
  have run := openedNode_run storedHost
    (fun state call => Stable.storesBinary storedHost state call = false) rfl
  have free := spentLog_free
  rcases submission_cases storedHost sampleMoment false
    (openedNode storedHost)
    spendingBlock.json with ⟨silent, _⟩ | ⟨accepted, passed, fresh, only, _⟩
  · have shown := spending_contents
    rw [silent] at shown
    cases shown
  · have shown := spending_contents
    rw [only, List.map_singleton, List.cons.injEq] at shown
    have txs : accepted.cb :: accepted.txs = [sampleCb 2 secondTxid, spendingTx] :=
      congrArg (fun seen => seen.2.2) shown.1
    rw [spentLog, only] at free
    rw [spentNode]
    exact ⟨accepted, passed, (List.cons.inj txs).2, (stored_block_applies run passed fresh free).1⟩

end PiSecure
