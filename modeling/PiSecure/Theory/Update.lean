import PiSecure.Theory.Submission

/-! # What an update leaves alone

The parts of the node that each update touches. The index of the active chain
is kept apart from the coins and from the mempool, so that a statement about
one of them sees no change of another.
-/

namespace PiSecure

/-- The part of a store that says which blocks there are and which are active. -/
structure ChainIndex where
  frames : List Payload
  hashToIndex : Finmap fun _ : Digest => Nat
  headersCache : Finmap fun _ : Digest => BlockHeader
  heightToHash : List Digest
  bestBlockHash : Digest
  bestHeight : Nat

/-- The index of a store. -/
def Storage.chainIndex (storage : Storage) : ChainIndex where
  frames := storage.frames
  hashToIndex := storage.hashToIndex
  headersCache := storage.headersCache
  heightToHash := storage.heightToHash
  bestBlockHash := storage.bestBlockHash
  bestHeight := storage.bestHeight

section Frames

variable {host : Host}

theorem retireChallenge_eq (node : Node) (hex : Text) :
    ∃ challenges outstanding, retireChallenge node hex =
      { node with challenges := challenges, outstanding := outstanding } := by
  unfold retireChallenge
  split
  · exact ⟨node.challenges, node.outstanding, rfl⟩
  · exact ⟨_, _, rfl⟩

/-! ## Reloading the mempool -/

theorem reloadEntry_eq (host : Host) (height : Nat) (node : Node) (obj : Json) :
    ∃ flags mempool, (reloadEntry host height node obj).1 =
      { node with flags := flags, storage := { node.storage with mempool := mempool } } := by
  have same : ∃ flags mempool, node =
      { node with flags := flags, storage := { node.storage with mempool := mempool } } :=
    ⟨node.flags, node.storage.mempool, rfl⟩
  unfold reloadEntry
  split
  · exact same
  · dsimp only
    split
    · exact same
    · split
      · exact same
      · exact ⟨_, _, rfl⟩

theorem reloadEntries_eq (host : Host) (height : Nat) (node : Node) (entries : List Json) :
    ∃ flags mempool, (reloadEntries host height node entries).1 =
      { node with flags := flags, storage := { node.storage with mempool := mempool } } := by
  induction entries generalizing node with
  | nil => exact ⟨node.flags, node.storage.mempool, rfl⟩
  | cons obj rest ih =>
      obtain ⟨flags, mempool, first⟩ := reloadEntry_eq host height node obj
      obtain ⟨laterFlags, laterMempool, later⟩ := ih (reloadEntry host height node obj).1
      refine ⟨laterFlags, laterMempool, ?_⟩
      change (reloadEntries host height (reloadEntry host height node obj).1 rest).1 = _
      rw [later, first]

/-- Reloading touches the mempool, its file and the flag book. -/
theorem loadMempool_eq (host : Host) (moment : Moment) (node : Node) :
    ∃ flags mempool file, loadMempool host moment node =
      { node with
        flags := flags
        mempoolFile := file
        storage := { node.storage with mempool := mempool } } := by
  unfold loadMempool
  split
  · exact ⟨node.flags, node.storage.mempool, node.mempoolFile, rfl⟩
  next entries _ =>
    obtain ⟨flags, mempool, reloaded⟩ := reloadEntries_eq host node.nextHeight node entries
    dsimp only
    split
    · rw [reloaded]
      exact ⟨flags, mempool, _, rfl⟩
    · rw [reloaded]
      exact ⟨flags, mempool, node.mempoolFile, rfl⟩

/-! ## Connecting a block -/

/-- The coins after the transactions of a block, as far as they apply. -/
def confirmUtxos (utxo : UtxoSet) (txs : List Tx) (height : Nat) : UtxoSet :=
  txs.foldl (fun rest tx => (applyTxUtxos rest tx height).getD rest) utxo

/-- The mempool without the transactions of a block. -/
def confirmMempool (pool : Mempool) (txs : List Tx) : Mempool :=
  txs.foldl (fun rest tx => rest.erase tx.txid) pool

/-- The document that `save_mempool` writes. -/
def savedMempool (host : Host) (moment : Moment) (pool : Mempool) : Json :=
  .array (((moment.listing pool).take 1000).filterMap fun stored => stored.data.parse host)

theorem foldl_confirmTx_eq (localPolicy : Bool) (height : Nat) (node : Node) (txs : List Tx) :
    ∃ names, txs.foldl (confirmTx localPolicy height) node =
      { node with
        names := names
        storage := { node.storage with
          mempool := confirmMempool node.storage.mempool txs
          utxo := confirmUtxos node.storage.utxo txs height } } := by
  induction txs generalizing node with
  | nil => exact ⟨node.names, rfl⟩
  | cons tx rest ih =>
      obtain ⟨names, later⟩ := ih (confirmTx localPolicy height node tx)
      refine ⟨names, ?_⟩
      rw [List.foldl_cons, later]
      rfl

/-- The coins after the coinbase of a block, as far as it applies. -/
def coinbaseUtxos (utxo : UtxoSet) (cb : Tx) (height : Nat) : UtxoSet :=
  (applyCoinbaseUtxos utxo (txCredits cb.txid cb.outputs height)).getD utxo

/-- The last steps of connecting a block: the flag book, and the files. -/
private def finishBlock (host : Host) (moment : Moment) (checked : Checked) (confirmed : Node) :
    Node :=
  let flagged := { confirmed with flags := checked.flags }
  if checked.draft.txs.isEmpty then flagged
  else saveMempool host moment { flagged with namesFile := some flagged.names.saved }

private theorem finishBlock_eq (host : Host) (moment : Moment) (checked : Checked)
    (confirmed : Node) :
    ∃ namesFile, finishBlock host moment checked confirmed =
      { confirmed with
        flags := checked.flags
        namesFile := namesFile
        mempoolFile :=
          if checked.draft.txs.isEmpty then confirmed.mempoolFile
          else some (savedMempool host moment confirmed.storage.mempool) } := by
  unfold finishBlock
  dsimp only
  split
  · exact ⟨confirmed.namesFile, rfl⟩
  · exact ⟨_, rfl⟩

/-- What connecting a block does to the node. -/
theorem connectBlock_eq (host : Host) (moment : Moment) (localPolicy : Bool) (node : Node)
    (checked : Checked) :
    ∃ names challenges outstanding namesFile,
      connectBlock host moment localPolicy node checked =
        { storage :=
            { node.storage.storeBlockWithHeader checked.digest
                (checked.draft.header checked.root checked.digest) (.doc checked.stored) with
              mempool := confirmMempool node.storage.mempool checked.draft.txs
              utxo := confirmUtxos
                (coinbaseUtxos node.storage.utxo checked.draft.cb checked.draft.fields.height)
                checked.draft.txs checked.draft.fields.height }
          flags := checked.flags
          names := names
          challenges := challenges
          outstanding := outstanding
          mempoolFile :=
            if checked.draft.txs.isEmpty then node.mempoolFile
            else some (savedMempool host moment
              (confirmMempool node.storage.mempool checked.draft.txs))
          namesFile := namesFile
          wallets := node.wallets } := by
  let height := checked.draft.fields.height
  let stored := { node with
    storage := node.storage.storeBlockWithHeader checked.digest
      (checked.draft.header checked.root checked.digest) (.doc checked.stored) }
  let retired := if height ≥ 4 ∧ localPolicy then
    retireChallenge stored checked.draft.binding.challengeHex else stored
  obtain ⟨challenges, outstanding, retiredEq⟩ : ∃ challenges outstanding,
      retired = { stored with challenges := challenges, outstanding := outstanding } := by
    by_cases issued : height ≥ 4 ∧ localPolicy
    · obtain ⟨challenges, outstanding, forgotten⟩ :=
        retireChallenge_eq stored checked.draft.binding.challengeHex
      exact ⟨challenges, outstanding, (if_pos issued).trans forgotten⟩
    · exact ⟨stored.challenges, stored.outstanding, if_neg issued⟩
  let paid (source : Node) : Node :=
    source.withUtxo (coinbaseUtxos source.storage.utxo checked.draft.cb height)
  obtain ⟨names, confirmed⟩ := foldl_confirmTx_eq localPolicy height
    (paid { stored with challenges := challenges, outstanding := outstanding }) checked.draft.txs
  have whole : connectBlock host moment localPolicy node checked =
      finishBlock host moment checked
        (checked.draft.txs.foldl (confirmTx localPolicy height) (paid retired)) := rfl
  obtain ⟨namesFile, finished⟩ := finishBlock_eq host moment checked
    (checked.draft.txs.foldl (confirmTx localPolicy height) (paid retired))
  rw [whole, finished, retiredEq, confirmed]
  exact ⟨names, challenges, outstanding, namesFile, rfl⟩

/-- The registrations of a block in the name table; a synced block overwrites. -/
def confirmNames (localPolicy : Bool) (names : NameTable) (txs : List Tx) : NameTable :=
  txs.foldl (fun names tx =>
    if tx.reg then
      names.rememberOrKeep tx.name tx.regAddress (nameKind tx.name) (toHex tx.txid) !localPolicy
    else names) names

theorem foldl_confirmTx_names (localPolicy : Bool) (height : Nat) (txs : List Tx) (node : Node) :
    (txs.foldl (confirmTx localPolicy height) node).names =
      confirmNames localPolicy node.names txs := by
  induction txs generalizing node with
  | nil => rfl
  | cons tx rest ih => exact ih (confirmTx localPolicy height node tx)

/-- The name table after a block. -/
theorem connectBlock_names (host : Host) (moment : Moment) (localPolicy : Bool) (node : Node)
    (checked : Checked) : (connectBlock host moment localPolicy node checked).names =
      confirmNames localPolicy node.names checked.draft.txs := by
  have confirmed : ∀ paid : Node, paid.names = node.names →
      (checked.draft.txs.foldl (confirmTx localPolicy checked.draft.fields.height) paid).names =
        confirmNames localPolicy node.names checked.draft.txs := fun paid same =>
    (foldl_confirmTx_names localPolicy _ _ paid).trans (by rw [same])
  have retired : ∀ (source : Node) (hex : Text),
      (retireChallenge source hex).names = source.names :=
    fun source hex => by
      obtain ⟨challenges, outstanding, forgotten⟩ := retireChallenge_eq source hex
      rw [forgotten]
  unfold connectBlock
  dsimp only
  split
  · split
    · exact confirmed _ (retired _ _)
    · exact confirmed _ rfl
  · split
    · exact confirmed _ (retired _ _)
    · exact confirmed _ rfl

theorem confirmNames_written (localPolicy : Bool) (names : NameTable) (txs : List Tx) :
    names.Written (confirmNames localPolicy names txs) := by
  induction txs generalizing names with
  | nil => exact .refl
  | cons tx rest ih =>
      refine NameTable.Written.trans ?_ (ih _)
      dsimp only
      split
      · exact NameTable.written_rememberOrKeep _ _ _ _ _ _
      · exact .refl

/-- Connecting a block remembers names at most. -/
theorem connectBlock_written (moment : Moment) (localPolicy : Bool) (node : Node)
    (checked : Checked) :
    node.names.Written (connectBlock host moment localPolicy node checked).names := by
  rw [connectBlock_names]
  exact confirmNames_written localPolicy _ _

end Frames

end PiSecure
