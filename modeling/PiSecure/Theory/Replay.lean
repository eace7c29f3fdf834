import PiSecure.Theory.ActiveChain

/-! # Replaying a chain

Applying stored blocks that follow the tip succeeds when their entries can be
posted, their flag operations apply, and the JSON of every transaction is small
enough to be parsed again. It leaves the coins and the flag book of the blocks.
-/

namespace PiSecure

variable {host : Host}

/-- Every transaction of a block is stored as JSON that the parser takes. -/
def ReadsBack (accepted : Accepted host) : Prop :=
  ∀ tx ∈ accepted.txs, (txToJson tx).dumpSize ≤ kMaxTxJsonBytes

/-! ## Names of a stored block -/

section Names

theorem absorbRecord_complete (table : NameTable) {row : Json} (chain : Bool) {txid : Text}
    (read : row.valueOr "txid" Json.asText? [] = some txid) :
    ∃ next, table.absorbRecord row chain = some next := by
  unfold NameTable.absorbRecord
  split
  · dsimp only
    rw [read]
    exact ⟨_, rfl⟩
  · exact ⟨_, rfl⟩

theorem rowToJson_txid (rec : NameRec) :
    ∃ txid, (NameTable.rowToJson rec).valueOr "txid" Json.asText? [] = some txid := by
  have found : (NameTable.rowToJson rec).get? "txid" =
      if rec.txid.isEmpty then none else some (.string rec.txid) := by
    rw [NameTable.rowToJson, Json.get?_ofMembers]
    cases rec.txid.isEmpty <;> rfl
  by_cases missing : rec.txid.isEmpty = true
  · rw [if_pos missing] at found
    exact ⟨[], Json.valueOr_of_absent (Json.isObject_ofMembers _) found _ _⟩
  · rw [if_neg missing] at found
    exact ⟨rec.txid, Json.valueOr_of_get? found _ _⟩

theorem absorbRows_complete (table : NameTable) (chain : Bool) (recs : List NameRec) :
    (table.absorbRows chain (recs.map NameTable.rowToJson)).2 = true := by
  induction recs generalizing table with
  | nil => rfl
  | cons rec rest ih =>
      obtain ⟨txid, read⟩ := rowToJson_txid rec
      obtain ⟨next, absorbed⟩ := absorbRecord_complete table chain read
      rw [List.map_cons, NameTable.absorbRows, absorbed]
      exact ih next

theorem txToJson_txid (tx : Tx) :
    (txToJson tx).valueOr "txid" Json.asText? [] = some (toHex tx.txid) := by
  have found : (txToJson tx).get? "txid" = some (.string (toHex tx.txid)) := by
    simp only [txToJson_get?, txMembers, regMembers, flagMembers]
    cases tx.reg <;> cases tx.flagKind <;> rfl
  exact Json.valueOr_of_get? found _ _

theorem txToJson_type (tx : Tx) :
    ∃ kind, (txToJson tx).valueOr "type" Json.asText? [] = some kind := by
  have found : (txToJson tx).get? "type" = none ∨
      ∃ kind, (txToJson tx).get? "type" = some (.string kind) := by
    simp only [txToJson_get?, txMembers, regMembers, flagMembers]
    cases tx.reg <;> cases tx.flagKind
    · exact .inl rfl
    all_goals exact .inr ⟨_, rfl⟩
  rcases found with absent | ⟨kind, present⟩
  · exact ⟨[], Json.valueOr_of_absent (Json.isObject_ofMembers _) absent _ _⟩
  · exact ⟨kind, Json.valueOr_of_get? present _ _⟩

theorem absorbRegisters_complete (table : NameTable) (txs : List Tx) :
    (table.absorbRegisters (txs.map txToJson)).2 = true := by
  induction txs generalizing table with
  | nil => rfl
  | cons tx rest ih =>
      obtain ⟨kind, typed⟩ := txToJson_type tx
      obtain ⟨next, absorbed⟩ := absorbRecord_complete table true (txToJson_txid tx)
      rw [List.map_cons, NameTable.absorbRegisters, typed]
      split
      · exact ih table
      · dsimp only
        split
        · exact ih table
        · rw [absorbed]
          exact ih next

/-- The names of a stored block are absorbed without an exception. -/
theorem absorbBlock_complete (table : NameTable) (accepted : Accepted host) :
    (table.absorbBlock accepted.stored).2 = true := by
  have names : ∃ recs : List NameRec, (accepted.stored.array? "names").getD [] =
      recs.map NameTable.rowToJson := by
    refine ⟨accepted.checked.draft.txs.foldl NameTable.snapshotTx accepted.names, ?_⟩
    rw [Json.array?, accepted.stored_get? "names" _ rfl]
    rfl
  obtain ⟨recs, namesEq⟩ := names
  have registers := absorbRegisters_complete table accepted.txs
  unfold NameTable.absorbBlock
  rw [accepted.stored_txs, namesEq]
  split
  · exact absorbRows_complete _ true recs
  next next ended =>
    rw [ended] at registers
    cases registers

theorem replayNames_done (node : Node) (accepted : Accepted host) :
    replayNames node accepted.stored =
      ({ node with names := (node.names.absorbBlock accepted.stored).1 }, .done) := by
  have complete := absorbBlock_complete node.names accepted
  unfold replayNames
  rcases absorbed : node.names.absorbBlock accepted.stored with ⟨names, ended⟩
  rw [absorbed] at complete
  cases complete
  rfl

end Names

/-! ## Blocks whose entries can be posted -/

/-- Transactions that are read back are replayed when they can be posted. -/
theorem replayTxs_done {height : Nat} {txs : List Tx}
    (parsed : ∀ tx ∈ txs, tx.Parsed host height)
    (readsBack : ∀ tx ∈ txs, (txToJson tx).dumpSize ≤ kMaxTxJsonBytes) (node : Node)
    {utxo : UtxoSet} {flags : FlagBook}
    (posted : Ledger.postAll node.storage.utxo (txs.map fun tx => entryOf tx height) = some utxo)
    (flagged : applyFlagTxs node.flags txs height = .ok flags) :
    replayTxs host height node (txs.map txToJson) =
      ({ node.withUtxo utxo with flags := flags }, .done) := by
  induction txs generalizing node with
  | nil =>
      cases posted
      cases flagged
      rfl
  | cons tx rest ih =>
      rw [List.forall_mem_cons] at parsed readsBack
      obtain ⟨paid, first, later⟩ := Option.bind_eq_some_iff.mp posted
      obtain ⟨book, applied, others⟩ := applyFlagTxs_cons.mp flagged
      have one : replayTx host height node (txToJson tx) =
          ({ node.withUtxo paid with flags := book }, .done) := by
        rw [replayTx, parseUserTx_txToJson_of_small parsed.1 readsBack.1]
        simp only [applyTxUtxos_eq, first, applied]
      rw [List.map_cons, replayTxs, one]
      exact ih parsed.2 readsBack.2 { node.withUtxo paid with flags := book } later others

/-- What a finished block or chain of blocks leaves of the node before. -/
structure Replayed (node final : Node) (utxo : UtxoSet) (flags : FlagBook) : Prop where
  node_eq : ∃ names storage, final =
    { node with flags := flags, names := names, storage := storage }
  coins : final.storage.utxo = utxo
  pool : final.storage.mempool = node.storage.mempool
  frames : final.storage.frames = node.storage.frames
  known : ∀ hash ∈ node.storage.hashToIndex, hash ∈ final.storage.hashToIndex

/-- A stored block is applied to the end when its entries can be posted. -/
theorem applyBlock_done {node : Node} {accepted : Accepted host} {index : Nat}
    (sound : accepted.node.names.Sound) (readsBack : ReadsBack accepted)
    (onDisk : index < node.storage.frames.length)
    (shaped : node.storage.chainIndex.Shaped)
    (next : accepted.height = node.storage.chainIndex.nextHeight) {utxo : UtxoSet}
    {flags : FlagBook}
    (posted : Ledger.postAll node.storage.utxo
      (blockEntries accepted.cb accepted.txs accepted.height) = some utxo)
    (flagged : applyFlagTxs node.flags accepted.txs accepted.height = .ok flags) :
    ∃ final, applyBlock host node (accepted.found index) = (final, .done) ∧
      Replayed node final utxo flags ∧
      final.storage.chainIndex =
        node.storage.chainIndex.extend node.storage.frames index accepted.header := by
  obtain ⟨storage, indexed⟩ :
      ∃ storage, node.storage.indexExistingBlock index accepted.header = some storage := by
    rw [Storage.indexExistingBlock, if_neg (Nat.not_le.mpr onDisk)]
    exact ⟨_, rfl⟩
  have kept : storage.utxo = node.storage.utxo := indexExistingBlock_utxo indexed
  have pool : storage.mempool = node.storage.mempool ∧ storage.frames = node.storage.frames := by
    rw [Storage.indexExistingBlock, if_neg (Nat.not_le.mpr onDisk)] at indexed
    cases indexed
    exact ⟨rfl, rfl⟩
  obtain ⟨paid, coinbase, later⟩ := Option.bind_eq_some_iff.mp posted
  have replayed := replayTxs_done (accepted.txs_parsed sound) readsBack
    (Node.withUtxo { node with storage := storage } paid) later flagged
  have items : ((accepted.found index).obj.array? "txs").getD [] = accepted.txs.map txToJson :=
    accepted.stored_txs
  have done : ∃ names, applyBlock host node (accepted.found index) =
      ({ node with flags := flags, names := names, storage := { storage with utxo := utxo } },
        .done) := by
    have place : node.storage.indexExistingBlock (accepted.found index).index accepted.header =
        some storage := indexed
    have replayedAt : replayTxs host (accepted.found index).height
        (Node.withUtxo { node with storage := storage } paid) (accepted.txs.map txToJson) =
        _ := replayed
    unfold applyBlock
    simp only [Accepted.storedHeader_found, place, Accepted.coinbaseCredits_found,
      applyCoinbaseUtxos_eq _ _ accepted.cb_shape.2.2.1, kept, coinbase, items, replayedAt]
    exact ⟨_, replayNames_done _ accepted⟩
  obtain ⟨names, done⟩ := done
  have extended : storage.chainIndex =
      node.storage.chainIndex.extend node.storage.frames index accepted.header :=
    chainIndex_indexExisting shaped next indexed
  refine ⟨_, done, ⟨⟨names, _, rfl⟩, rfl, pool.1, pool.2, fun hash known => ?_⟩, extended⟩
  change hash ∈ storage.chainIndex.hashToIndex
  rw [extended]
  exact Finmap.mem_insert.mpr (.inr known)

/-! ## Chains whose entries can be posted -/

theorem applyChainFlags_cons {book flags : FlagBook} {accepted : Accepted host}
    {rest : List (Accepted host)} :
    applyChainFlags book (accepted :: rest) = .ok flags ↔
      ∃ staged, applyFlagTxs book accepted.txs accepted.height = .ok staged ∧
        applyChainFlags staged rest = .ok flags := by
  rw [applyChainFlags, List.foldlM_cons, bind_eq_ok]
  exact Iff.rfl

theorem Replayed.trans {node middle final : Node} {first utxo : UtxoSet} {staged flags : FlagBook}
    (one : Replayed node middle first staged) (more : Replayed middle final utxo flags) :
    Replayed node final utxo flags where
  node_eq := by
    obtain ⟨names, storage, rfl⟩ := one.node_eq
    obtain ⟨others, last, rfl⟩ := more.node_eq
    exact ⟨others, last, rfl⟩
  coins := more.coins
  pool := more.pool.trans one.pool
  frames := more.frames.trans one.frames
  known hash member := more.known hash (one.known hash member)

/-- Stored blocks that follow the active chain are applied to the end when their
entries can be posted and their flag operations apply. -/
theorem applyChain_done {chain : List (Accepted host)} {placed : List (Accepted host × Nat)}
    {node : Node} (on : OnChain chain node.storage) (shaped : node.storage.chainIndex.Shaped)
    (linked : Linked (chain ++ placed.map Prod.fst))
    (sound : ∀ place ∈ placed, place.1.node.names.Sound)
    (readsBack : ∀ place ∈ placed, ReadsBack place.1)
    (onDisk : ∀ place ∈ placed, place.2 < node.storage.frames.length) {utxo : UtxoSet}
    {flags : FlagBook}
    (posted : Ledger.postAll node.storage.utxo (chainEntries (placed.map Prod.fst)) = some utxo)
    (flagged : applyChainFlags node.flags (placed.map Prod.fst) = .ok flags) :
    ∃ final, applyChain host node (scanned placed) = (final, .done) ∧
      Replayed node final utxo flags ∧ final.storage.chainIndex.Shaped ∧
      OnChain (chain ++ placed.map Prod.fst) final.storage := by
  induction placed generalizing node chain with
  | nil =>
      cases posted
      cases flagged
      rw [List.map_nil, List.append_nil]
      exact ⟨node, rfl, ⟨⟨node.names, node.storage, rfl⟩, rfl, rfl, rfl, fun _ known => known⟩,
        shaped,
        on⟩
  | cons place rest ih =>
      obtain ⟨accepted, index⟩ := place
      rw [List.forall_mem_cons] at sound readsBack onDisk
      rw [List.map_cons] at linked posted flagged
      rw [chainEntries, List.flatMap_cons, Ledger.postAll_append] at posted
      obtain ⟨paid, first, later⟩ := Option.bind_eq_some_iff.mp posted
      obtain ⟨staged, applied, others⟩ := applyChainFlags_cons.mp flagged
      obtain ⟨height, prev⟩ := linked chain accepted (rest.map Prod.fst) rfl
      obtain ⟨next, done, replayed, extended⟩ := applyBlock_done sound.1 readsBack.1 onDisk.1 shaped
        (height.trans on.nextHeight.symm) first applied
      have sameFlags : next.flags = staged := by
        obtain ⟨_, _, rfl⟩ := replayed.node_eq
        rfl
      have grown : OnChain (chain ++ [accepted]) next.storage :=
        on.grow shaped (height.trans on.nextHeight.symm) (prev.trans (on.tip shaped).symm) extended
          (by rw [replayed.coins]; exact first)
      have whole : chain ++ accepted :: rest.map Prod.fst =
          (chain ++ [accepted]) ++ rest.map Prod.fst := by
        rw [List.append_assoc, List.singleton_append]
      have shapedNext : next.storage.chainIndex.Shaped := by
        rw [extended]
        exact shaped.extend _ _ (height.trans on.nextHeight.symm)
      obtain ⟨final, finished, after, shapedFinal, onFinal⟩ := ih grown shapedNext (whole ▸ linked)
        sound.2 readsBack.2
        (by rw [replayed.frames]; exact onDisk.2) (by rw [replayed.coins]; exact later)
        (by rw [sameFlags]; exact others)
      refine ⟨final, ?_, replayed.trans after, shapedFinal, ?_⟩
      · rw [scanned, List.map_cons, applyChain]
        dsimp only
        rw [done]
        exact finished
      · rw [List.map_cons, whole]
        exact onFinal

end PiSecure
