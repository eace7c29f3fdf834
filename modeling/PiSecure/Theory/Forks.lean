import PiSecure.Theory.Disk
import PiSecure.Theory.Linear

/-! # Runs with forks

When blocks are submitted and peer chains are adopted, and nothing is pending,
every stored block ends a chain of stored blocks that can be replayed. A replay
moves the node to such a chain, and a restart to the one of the highest block.
-/

namespace PiSecure

variable {host : Host}

/-! ## Branches -/

/-- A chain of stored blocks that can be replayed, with the coins and the flag
book that it leaves. -/
structure Branch (log : List (Accepted host)) (chain : List (Accepted host × Nat))
    (utxo : UtxoSet) (flags : FlagBook) : Prop where
  listed : ListedIn log chain
  linked : Linked (chain.map Prod.fst)
  coins : Ledger.Journal (chainEntries (chain.map Prod.fst)) utxo
  flagged : applyChainFlags [] (chain.map Prod.fst) = .ok flags

theorem Branch.empty (log : List (Accepted host)) : Branch log [] ∅ [] :=
  ⟨fun _ impossible => (nomatch impossible), Linked.nil, Ledger.Journal.empty, rfl⟩

theorem Branch.grow {log : List (Accepted host)} {chain : List (Accepted host × Nat)}
    {utxo : UtxoSet} {flags : FlagBook} (branch : Branch log chain utxo flags)
    (more : List (Accepted host)) : Branch (log ++ more) chain utxo flags :=
  ⟨branch.listed.grow more, branch.linked, branch.coins, branch.flagged⟩

/-- The height of the last block of a chain. -/
theorem Linked.last_height {front : List (Accepted host × Nat)} {place : Accepted host × Nat}
    (linked : Linked ((front ++ [place]).map Prod.fst)) : place.1.height = front.length + 1 := by
  rw [List.map_append, List.map_singleton] at linked
  have height := (linked_append_singleton.mp linked).2.1
  rwa [List.length_map] at height

/-- A node on a branch of a log in which every block ends a branch, without
pending transactions. -/
structure Forked (log : List (Accepted host)) (node : Node) (chain : List (Accepted host × Nat)) :
    Prop where
  grounded : Grounded log node
  distinct : (log.map Accepted.hash).Nodup
  stored : ∀ accepted ∈ log, accepted.hash ∈ node.storage.hashToIndex
  mempool : node.storage.mempool = ∅
  file : node.mempoolFile = none ∨ node.mempoolFile = some (.array [])
  branch : Branch log chain node.storage.utxo node.flags
  on : OnChain (chain.map Prod.fst) node.storage
  branches : ∀ (index : Nat) (accepted : Accepted host), log[index]? = some accepted →
    ∃ front utxo flags, Branch log (front ++ [(accepted, index)]) utxo flags

/-- Reloading an empty mempool changes nothing. -/
theorem loadMempool_idle (moment : Moment) {node : Node}
    (file : node.mempoolFile = none ∨ node.mempoolFile = some (.array [])) :
    loadMempool host moment node = node := by
  unfold loadMempool
  rcases file with missing | idle
  · rw [missing]
    rfl
  · rw [idle]
    rfl

namespace Forked

variable {log : List (Accepted host)} {node : Node} {chain : List (Accepted host × Nat)}

theorem empty (wallets : Wallets) : Forked ([] : List (Accepted host)) (Node.empty wallets) [] where
  grounded := Grounded.run .nil
  distinct := List.nodup_nil
  stored _ impossible := nomatch impossible
  mempool := rfl
  file := .inl rfl
  branch := Branch.empty []
  on := OnChain.empty
  branches _ _ impossible := nomatch impossible

/-- Remembering names does not matter. -/
theorem renamed (forked : Forked log node chain) {names : NameTable}
    (written : node.names.Written names) : Forked log { node with names := names } chain :=
  ⟨@Grounded.reframed _ _ node _ forked.grounded ⟨rfl, rfl, written⟩, forked.distinct,
    forked.stored,
    forked.mempool, forked.file, forked.branch, forked.on, forked.branches⟩

/-- A connected block extends the branch of the node. -/
theorem connect (forked : Forked log node chain) {moment : Moment} {localPolicy : Bool}
    {params : Json} {accepted : Accepted host} (free : CollisionFree (logTxs (log ++ [accepted])))
    (passed : acceptance host moment localPolicy node params = some accepted)
    (fresh : node.storage.blockIndex accepted.hash = none) :
    Forked (log ++ [accepted]) (connectBlock host moment localPolicy
      { node with names := accepted.names } accepted.checked)
      (chain ++ [(accepted, log.length)]) := by
  have grounded := forked.grounded
  have traced := grounded.sourced.traced
  have above := traced.above passed
  have index := traced.shaped.connect_index passed
  have made := acceptance_of passed
  obtain ⟨book, booked⟩ := grounded.booked free.front
  have posted := (grounded.connect passed (above ▸ Nat.lt_succ_self _) free booked).1
  have on := forked.on.grow traced.shaped (above.trans traced.shaped.nextHeight_eq.symm)
    (accepted.prev_eq.trans (by rw [made.node_eq, Storage.tip_chainIndex])) index posted
  have hashes := congrArg ChainIndex.hashToIndex index
  obtain ⟨names, challenges, outstanding, namesFile, connected⟩ :=
    connectBlock_eq host moment localPolicy { node with names := accepted.names }
      accepted.checked
  have pool : confirmMempool node.storage.mempool accepted.checked.draft.txs = ∅ := by
    rw [forked.mempool]
    exact Linear.confirmMempool_empty _
  have blocks : (chain ++ [(accepted, log.length)]).map Prod.fst =
      chain.map Prod.fst ++ [accepted] := by
    rw [List.map_append, List.map_singleton]
  rw [← blocks] at on
  have placed : (log ++ [accepted])[log.length]? = some accepted := by
    rw [List.getElem?_append_right (Nat.le_refl _), Nat.sub_self]
    rfl
  have branch : Branch (log ++ [accepted]) (chain ++ [(accepted, log.length)])
      (connectBlock host moment localPolicy { node with names := accepted.names }
        accepted.checked).storage.utxo
      (connectBlock host moment localPolicy { node with names := accepted.names }
        accepted.checked).flags := by
    refine ⟨?_, on.linked, on.coins, ?_⟩
    · intro place member
      rcases List.mem_append.mp member with older | isNew
      · exact forked.branch.listed.grow [accepted] place older
      · rw [List.mem_singleton.mp isNew]
        exact placed
    · rw [blocks, applyChainFlags_append, forked.branch.flagged, connected]
      have flagged := (checkTxs_ok accepted.passes.txs).1
      rw [made.node_eq] at flagged
      exact flagged
  refine ⟨grounded_stable.connected grounded passed fresh, ?_, ?_, ?_, ?_, branch, on, ?_⟩
  · rw [List.map_append, List.nodup_append]
    refine ⟨forked.distinct, List.nodup_singleton _, ?_⟩
    intro hash older _ isNew same
    obtain ⟨other, listed, rfl⟩ := List.mem_map.mp older
    rw [List.map_singleton, List.mem_singleton] at isNew
    have known := forked.stored other listed
    rw [same, isNew, ← Finmap.lookup_isSome] at known
    change (node.storage.blockIndex accepted.hash).isSome = true at known
    rw [fresh] at known
    cases known
  · intro other member
    change other.hash ∈ (Storage.chainIndex _).hashToIndex
    rw [hashes]
    rcases List.mem_append.mp member with older | isNew
    · exact Finmap.mem_insert.mpr (.inr (forked.stored other older))
    · rw [List.mem_singleton.mp isNew]
      exact Finmap.mem_insert.mpr (.inl rfl)
  · rw [connected]
    exact pool
  · rw [connected]
    dsimp only
    rw [pool, Linear.savedMempool_empty]
    split
    · exact forked.file
    · exact .inr rfl
  · intro place block listed
    rcases Nat.lt_or_ge place log.length with inside | outside
    · rw [List.getElem?_append_left inside] at listed
      obtain ⟨front, utxo, flags, older⟩ := forked.branches place block listed
      exact ⟨front, utxo, flags, older.grow [accepted]⟩
    · have below := (List.getElem?_eq_some_iff.mp listed).1
      rw [List.length_append, List.length_singleton] at below
      have last : place = log.length := by omega
      subst last
      rw [placed] at listed
      cases listed
      exact ⟨chain, _, _, branch⟩

/-! ## Replays -/

section Replay

variable (forked : Forked log node chain)
  (proper : ∀ accepted ∈ log, accepted.hash ≠ Digest.zero)
  (readsBack : ∀ accepted ∈ log, ReadsBack accepted)

include forked in
theorem frames : node.storage.frames = documents log := forked.grounded.sourced.traced.frames

include forked proper in
/-- A branch is found from its last block. -/
theorem found {front : List (Accepted host × Nat)} {place : Accepted host × Nat} {utxo : UtxoSet}
    {flags : FlagBook} (branch : Branch log (front ++ [place]) utxo flags) :
    chainEndingAt (loadFoundBlocks host (documents log)) place.1.hash =
      scanned (front ++ [place]) := by
  have found := chainEndingAt_chain forked.distinct proper branch.listed branch.linked
    (List.append_ne_nil_of_right_ne_nil _ (List.cons_ne_nil _ _))
  rwa [List.map_append, List.map_singleton, tipHash_append] at found

include forked readsBack in
/-- A branch is replayed to its end from a reset store. -/
theorem applyBranch (base : Node) (traced : Traced log base.storage.chainIndex)
    (shaped : base.storage.heightToHash = [] ∧ base.storage.bestHeight = 0)
    (coins : base.storage.utxo = ∅) (sameFlags : base.flags = [])
    {branchChain : List (Accepted host × Nat)} {utxo : UtxoSet} {flags : FlagBook}
    (branch : Branch log branchChain utxo flags) :
    ∃ final, applyChain host base (scanned branchChain) = (final, .done) ∧
      Replayed base final utxo flags ∧ OnChain (branchChain.map Prod.fst) final.storage := by
  have on : OnChain ([] : List (Accepted host)) base.storage :=
    ⟨Linked.nil, shaped.1, shaped.2, by rw [coins]; exact Ledger.Journal.empty⟩
  have member : ∀ place ∈ branchChain, place.1 ∈ log := fun place inside =>
    List.mem_of_getElem? (branch.listed place inside)
  have frames : base.storage.frames = documents log := traced.frames
  obtain ⟨final, done, replayed, _, onFinal⟩ := applyChain_done on traced.shaped
    (by rw [List.nil_append]; exact branch.linked)
    (fun place inside => forked.grounded.sound place.1 (member place inside))
    (fun place inside => readsBack place.1 (member place inside))
    (fun place inside => by
      rw [frames, documents, List.length_map]
      exact (List.getElem?_eq_some_iff.mp (branch.listed place inside)).1)
    (by rw [coins]; exact branch.coins) (by rw [sameFlags]; exact branch.flagged)
  rw [List.nil_append] at onFinal
  exact ⟨final, done, replayed, onFinal⟩

include forked proper readsBack in
/-- A replay to the last block of a branch moves the node to the branch. -/
theorem replay (moment : Moment) {front : List (Accepted host × Nat)}
    {place : Accepted host × Nat} {utxo : UtxoSet} {flags : FlagBook}
    (branch : Branch log (front ++ [place]) utxo flags) :
    ∃ final, rpcReplayChain host moment node place.1.hash = (final, .done) ∧
      Forked log final (front ++ [place]) := by
  let base : Node := { node with flags := [], storage := node.storage.resetActiveChain }
  obtain ⟨final, done, replayed, on⟩ := forked.applyBranch readsBack base
    forked.grounded.sourced.traced.reset ⟨rfl, rfl⟩ rfl rfl branch
  have file : final.mempoolFile = node.mempoolFile := by
    obtain ⟨names, storage, rfl⟩ := replayed.node_eq
    rfl
  have flagged : final.flags = flags := by
    obtain ⟨names, storage, rfl⟩ := replayed.node_eq
    rfl
  have ended : (scanned (front ++ [place])).getLast?.map FoundBlock.hash = some place.1.hash := by
    rw [scanned, List.map_append, List.getLast?_append, List.map_singleton, List.getLast?_singleton]
    rfl
  have outcome : rpcReplayChain host moment node place.1.hash = (final, .done) := by
    unfold rpcReplayChain
    rw [forked.frames, forked.found proper branch]
    dsimp only
    rw [ended, if_neg (not_not.mpr rfl)]
    have ended : applyChain host { node with flags := [], storage := node.storage.resetActiveChain }
        (scanned (front ++ [place])) = (final, .done) := done
    rw [ended]
    dsimp only
    rw [loadMempool_idle moment (file ▸ forked.file)]
  refine ⟨final, outcome, ?_, forked.distinct, ?_, ?_, file ▸ forked.file, ?_, on, forked.branches⟩
  · have grounded := grounded_stable.replayed moment place.1.hash forked.grounded
    rwa [outcome] at grounded
  · exact fun accepted member => replayed.known _ (forked.stored accepted member)
  · rw [replayed.pool]
    rfl
  · rw [replayed.coins, flagged]
    exact branch

include forked proper readsBack in
/-- A replay to any block fails without a change or moves the node to a branch. -/
theorem replay_cases (moment : Moment) (tip : Digest) :
    rpcReplayChain host moment node tip = (node, .failed) ∨
      ∃ final front place, rpcReplayChain host moment node tip = (final, .done) ∧
        place.1.hash = tip ∧ Forked log final (front ++ [place]) := by
  obtain ⟨listedChain, listed, linked, selected⟩ := chainEndingAt_listed log tip
  by_cases ends : (chainEndingAt (loadFoundBlocks host node.storage.frames) tip).getLast?.map
      FoundBlock.hash = some tip
  · have nonempty : listedChain ≠ [] := by
      rintro rfl
      rw [forked.frames, selected] at ends
      cases ends
    obtain ⟨front, place, rfl⟩ := (List.eq_nil_or_concat listedChain).resolve_left nonempty
    rw [List.concat_eq_append] at listed linked selected
    have named : place.1.hash = tip := by
      rw [forked.frames, selected, scanned, List.map_append, List.getLast?_append,
        List.map_singleton, List.getLast?_singleton] at ends
      exact Option.some.inj ends
    obtain ⟨others, utxo, flags, branch⟩ := forked.branches place.2 place.1
      (listed place (List.mem_append_right _ (List.mem_singleton_self _)))
    obtain ⟨final, outcome, moved⟩ := forked.replay proper readsBack moment branch
    exact .inr ⟨final, others, place, named ▸ outcome, named, moved⟩
  · refine .inl ?_
    unfold rpcReplayChain
    dsimp only
    rw [if_pos ends]

end Replay

end Forked

end PiSecure
