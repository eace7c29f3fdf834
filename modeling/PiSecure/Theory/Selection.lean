import PiSecure.Theory.Provenance

/-! # Selecting and applying a chain

What a scan of the disk selects is made of stored blocks that follow each other
from the first height on, and what applying a block leaves behind when it stops
halfway.
-/

namespace PiSecure

section Selection

variable {found : List FoundBlock}

theorem firstStored_mem {hash : Digest} {best : Option FoundBlock} {block picked : FoundBlock}
    (isPicked : firstStored hash best block = some picked) :
    (picked = block ∧ block.hash = hash) ∨ best = some picked := by
  unfold firstStored at isPicked
  split at isPicked
  · exact .inr isPicked
  next matched =>
    split at isPicked
    · exact .inl ⟨(Option.some.inj isPicked).symm, not_not.mp matched⟩
    · split at isPicked
      · exact .inl ⟨(Option.some.inj isPicked).symm, not_not.mp matched⟩
      · exact .inr isPicked

/-- The map of hashes only holds blocks of the scan. -/
theorem byHash_mem {hash : Digest} {block : FoundBlock} (picked : byHash found hash = some block) :
    block ∈ found ∧ block.hash = hash := by
  induction found using List.reverseRecOn with
  | nil => cases picked
  | append_singleton front last ih =>
      rw [byHash, List.foldl_append] at picked
      rcases firstStored_mem picked with ⟨rfl, named⟩ | older
      · exact ⟨List.mem_append_right _ (List.mem_singleton_self _), named⟩
      · exact ⟨List.mem_append_left _ (ih older).1, (ih older).2⟩

/-- A walk back only meets blocks of the scan, and ends with its start. -/
theorem walkBack_mem {fuel : Nat} {cursor : Digest} {chain : List FoundBlock}
    (walked : walkBack found fuel cursor = some chain) :
    (∀ block ∈ chain, block ∈ found) ∧ chain.getLast?.map FoundBlock.hash = some cursor := by
  induction fuel generalizing cursor chain with
  | zero => cases walked
  | succ fuel ih =>
      rw [walkBack] at walked
      split at walked
      · cases walked
      next block picked =>
        obtain ⟨listed, named⟩ := byHash_mem picked
        split at walked
        · cases walked
          exact ⟨fun other member => List.mem_singleton.mp member ▸ listed, congrArg some named⟩
        · obtain ⟨front, earlier, rfl⟩ := Option.map_eq_some_iff.mp walked
          refine ⟨?_, ?_⟩
          · intro other member
            rcases List.mem_append.mp member with inFront | isLast
            · exact (ih earlier).1 other inFront
            · exact List.mem_singleton.mp isLast ▸ listed
          · rw [List.getLast?_append, List.getLast?_singleton]
            exact congrArg some named

/-- A selected chain is made of blocks of the scan, linked from height 1 on. -/
theorem chainEndingAt_spec (found : List FoundBlock) (tip : Digest) :
    (∀ block ∈ chainEndingAt found tip, block ∈ found) ∧
      linked (chainEndingAt found tip) 1 Digest.zero = true := by
  unfold chainEndingAt
  split
  · exact ⟨fun _ impossible => (nomatch impossible), rfl⟩
  next chain walked =>
    split
    next follows => exact ⟨(walkBack_mem walked).1, follows⟩
    · exact ⟨fun _ impossible => (nomatch impossible), rfl⟩

theorem chooseLongestChain_spec (found : List FoundBlock) :
    (∀ block ∈ chooseLongestChain found, block ∈ found) ∧
      linked (chooseLongestChain found) 1 Digest.zero = true := by
  unfold chooseLongestChain
  split
  · exact ⟨fun _ impossible => (nomatch impossible), rfl⟩
  · exact chainEndingAt_spec _ _

theorem linked_cons {block : FoundBlock} {rest : List FoundBlock} {expect : Nat}
    {expectPrev : Digest} :
    linked (block :: rest) expect expectPrev = true ↔
      block.height = expect ∧ block.prev = expectPrev ∧
        linked rest (expect + 1) block.hash = true := by
  simp only [linked, Bool.and_eq_true, decide_eq_true_eq, and_assoc]

end Selection

/-! ## Scanning stored blocks -/

section Scan

variable {host : Host}

theorem loadFoundBlocks_log (log : List (Accepted host)) :
    loadFoundBlocks host (log.map fun accepted => .doc accepted.stored) =
      log.zipIdx.map fun (accepted, index) => accepted.found index := by
  have scanned : ∀ start, ((log.map fun accepted => Payload.doc accepted.stored).zipIdx
      start).filterMap (fun place => foundBlock host place.2 place.1) =
      (log.zipIdx start).map fun place => place.1.found place.2 := by
    induction log with
    | nil => intro start; rfl
    | cons accepted rest ih =>
        intro start
        rw [List.map_cons, List.zipIdx_cons, List.zipIdx_cons, List.map_cons, List.filterMap_cons]
        simp only [Accepted.foundBlock_stored]
        rw [ih (start + 1)]
  exact scanned 0

/-- A scanned block is an accepted one with its place on disk. -/
theorem mem_loadFoundBlocks {log : List (Accepted host)} {block : FoundBlock}
    (member : block ∈ loadFoundBlocks host (log.map fun accepted => .doc accepted.stored)) :
    ∃ accepted, ∃ index : Nat, log[index]? = some accepted ∧ block = accepted.found index := by
  rw [loadFoundBlocks_log] at member
  obtain ⟨⟨accepted, index⟩, listed, rfl⟩ := List.mem_map.mp member
  exact ⟨accepted, index, List.mk_mem_zipIdx_iff_getElem?.mp listed, rfl⟩

end Scan

/-! ## Applying a chain -/

section Apply

variable {host : Host}

theorem replayTx_eq (host : Host) (height : Nat) (node : Node) (txj : Json) :
    ∃ utxo flags, (replayTx host height node txj).1 =
      { node.withUtxo utxo with flags := flags } := by
  unfold replayTx
  split
  · exact ⟨node.storage.utxo, node.flags, rfl⟩
  · split
    · exact ⟨node.storage.utxo, node.flags, rfl⟩
    · split
      · exact ⟨_, node.flags, rfl⟩
      · exact ⟨_, _, rfl⟩

theorem replayTxs_eq (host : Host) (height : Nat) (node : Node) (txs : List Json) :
    ∃ utxo flags, (replayTxs host height node txs).1 =
      { node.withUtxo utxo with flags := flags } := by
  induction txs generalizing node with
  | nil => exact ⟨node.storage.utxo, node.flags, rfl⟩
  | cons txj rest ih =>
      obtain ⟨utxo, flags, first⟩ := replayTx_eq host height node txj
      rw [replayTxs]
      split
      next next ended =>
        obtain ⟨laterUtxo, laterFlags, later⟩ := ih next
        rw [ended] at first
        dsimp only at first
        exact ⟨laterUtxo, laterFlags, by rw [later, first]; rfl⟩
      next stopped _ => exact ⟨utxo, flags, first⟩

/-- Applying a block does nothing, or it indexes the block and touches besides
only the coins, the flag book and the name table. -/
theorem applyBlock_eq (host : Host) (node : Node) (item : FoundBlock) :
    (∃ status, status ≠ Status.done ∧ applyBlock host node item = (node, status)) ∨
      ∃ header storage, storedHeader item = some header ∧
        node.storage.indexExistingBlock item.index header = some storage ∧
        ∃ utxo flags names, (applyBlock host node item).1 =
          { node with
            flags := flags
            names := names
            storage := { storage with utxo := utxo } } := by
  unfold applyBlock
  split
  · exact .inl ⟨.thrown, by decide, rfl⟩
  next header read =>
    split
    · exact .inl ⟨.failed, by decide, rfl⟩
    next storage indexed =>
      refine .inr ⟨header, storage, read, indexed, ?_⟩
      dsimp only
      split
      · exact ⟨storage.utxo, node.flags, node.names, rfl⟩
      next credits _ =>
        split
        · exact ⟨storage.utxo, node.flags, node.names, rfl⟩
        next paid _ =>
          obtain ⟨utxo, flags, replayed⟩ := replayTxs_eq host item.height
            (Node.withUtxo { node with storage := storage } paid) ((item.obj.array? "txs").getD [])
          split
          next next ended =>
            rw [ended] at replayed
            dsimp only at replayed
            subst replayed
            exact ⟨utxo, flags, _, rfl⟩
          next stopped _ => exact ⟨utxo, flags, node.names, replayed⟩

theorem indexExistingBlock_utxo {storage next : Storage} {index : Nat} {header : BlockHeader}
    (indexed : storage.indexExistingBlock index header = some next) : next.utxo = storage.utxo := by
  unfold Storage.indexExistingBlock at indexed
  split at indexed
  · cases indexed
  · cases indexed
    rfl

/-- Applying a block remembers names at most. -/
theorem applyBlock_written (item : FoundBlock) (node : Node) :
    node.names.Written (applyBlock host node item).1.names := by
  unfold applyBlock
  split
  · exact .refl
  · split
    · exact .refl
    next storage _ =>
      dsimp only
      split
      · exact .refl
      · split
        · exact .refl
        next paid _ =>
          obtain ⟨utxo, flags, replayed⟩ := replayTxs_eq host item.height
            (Node.withUtxo { node with storage := storage } paid) ((item.obj.array? "txs").getD [])
          split
          next next ended =>
            rw [ended] at replayed
            dsimp only at replayed
            subst replayed
            exact NameTable.written_absorbBlock node.names item.obj
          next stopped _ =>
            rw [replayed]
            exact .refl

/-- Applying a stored block that follows the tip does nothing or extends the
index. -/
theorem applyBlock_chainIndex {node : Node} {accepted : Accepted host}
    (shaped : node.storage.chainIndex.Shaped)
    (next : accepted.height = node.storage.chainIndex.nextHeight) (index : Nat) :
    (∃ status, status ≠ Status.done ∧
      applyBlock host node (accepted.found index) = (node, status)) ∨
    (applyBlock host node (accepted.found index)).1.storage.chainIndex =
      node.storage.chainIndex.extend node.storage.frames index accepted.header := by
  rcases applyBlock_eq host node (accepted.found index) with
    stopped | ⟨header, storage, read, indexed, utxo, flags, names, done⟩
  · exact .inl stopped
  · rw [Accepted.storedHeader_found] at read
    cases read
    refine .inr ?_
    rw [done]
    change storage.chainIndex = _
    exact chainIndex_indexExisting shaped next indexed

/-- The rule for applying linked blocks of the log: what every single block
preserves holds wherever the chain stops. -/
theorem applyChain_rule {log : List (Accepted host)} (Inv : Node → Prop)
    (shaped : ∀ {node}, Inv node → node.storage.chainIndex.Shaped)
    (block : ∀ {node : Node} {accepted : Accepted host} {index : Nat}, Inv node →
      log[index]? = some accepted → accepted.height = node.storage.chainIndex.nextHeight →
      accepted.prev = node.storage.chainIndex.tip →
      Inv (applyBlock host node (accepted.found index)).1)
    {node : Node} (holds : Inv node) {items : List FoundBlock}
    (scanned : ∀ item ∈ items, ∃ accepted, ∃ index : Nat, log[index]? = some accepted ∧
      item = accepted.found index)
    (follows : linked items node.storage.chainIndex.nextHeight node.storage.chainIndex.tip = true) :
    Inv (applyChain host node items).1 := by
  induction items generalizing node with
  | nil => exact holds
  | cons item rest ih =>
      rw [List.forall_mem_cons] at scanned
      obtain ⟨⟨accepted, index, listed, rfl⟩, others⟩ := scanned
      obtain ⟨height, prev, later⟩ := linked_cons.mp follows
      have applied := block holds listed height prev
      rw [applyChain]
      split
      next next ended =>
        rw [ended] at applied
        rcases applyBlock_chainIndex (shaped holds) height index with
          ⟨status, unfinished, stopped⟩ | indexed
        · rw [stopped] at ended
          cases ended
          exact absurd rfl unfinished
        · rw [ended] at indexed
          dsimp only at indexed applied
          have nextHeight : next.storage.chainIndex.nextHeight =
              node.storage.chainIndex.nextHeight + 1 := by
            rw [(shaped applied).nextHeight_eq, indexed]
            exact congrArg (· + 1) height
          have tip : next.storage.chainIndex.tip = accepted.hash := by
            rw [indexed]
            exact (shaped holds).tip_extend _ _ height
          refine ih applied others ?_
          rw [nextHeight, tip]
          exact later
      next stopped _ => exact applied

/-- Applying a stored block keeps the index traced. -/
theorem Traced.applyBlock {log : List (Accepted host)} {node : Node}
    (traced : Traced log node.storage.chainIndex) {accepted : Accepted host} {index : Nat}
    (listed : log[index]? = some accepted)
    (next : accepted.height = node.storage.chainIndex.nextHeight) :
    Traced log (applyBlock host node (accepted.found index)).1.storage.chainIndex := by
  rcases applyBlock_chainIndex traced.shaped next index with ⟨status, _, stopped⟩ | indexed
  · rw [stopped]
    exact traced
  · rw [indexed]
    exact traced.extend (fun _ member => member) (List.mem_of_getElem? listed) next traced.frames
      index

/-- Applying linked blocks of the log keeps the index traced, wherever it stops. -/
theorem Traced.applyChain {log : List (Accepted host)} {node : Node}
    (traced : Traced log node.storage.chainIndex) {items : List FoundBlock}
    (scanned : ∀ item ∈ items, ∃ accepted, ∃ index : Nat, log[index]? = some accepted ∧
      item = accepted.found index)
    (follows : linked items node.storage.chainIndex.nextHeight node.storage.chainIndex.tip = true) :
    Traced log (applyChain host node items).1.storage.chainIndex :=
  applyChain_rule (fun node => Traced log node.storage.chainIndex)
    (fun holds => holds.shaped) (fun holds listed next _ => holds.applyBlock listed next) traced
    scanned follows

/-! ## Replay and restart -/

/-- The rule for a replay: what holds of the reset node, and survives the blocks
and the reload of the mempool, holds after it, unless nothing is selected. -/
theorem rpcReplayChain_rule {log : List (Accepted host)} (Inv : Node → Prop)
    (shaped : ∀ {node}, Inv node → node.storage.chainIndex.Shaped)
    (block : ∀ {node : Node} {accepted : Accepted host} {index : Nat}, Inv node →
      log[index]? = some accepted → accepted.height = node.storage.chainIndex.nextHeight →
      accepted.prev = node.storage.chainIndex.tip →
      Inv (applyBlock host node (accepted.found index)).1)
    {node : Node} (frames : node.storage.frames = log.map fun accepted => .doc accepted.stored)
    {moment : Moment} (reload : ∀ {node}, Inv node → Inv (loadMempool host moment node))
    (holds : Inv node)
    (reset : Inv { node with flags := [], storage := node.storage.resetActiveChain })
    (tip : Digest) : Inv (rpcReplayChain host moment node tip).1 := by
  unfold rpcReplayChain
  dsimp only
  split
  · exact holds
  · obtain ⟨listed, follows⟩ :=
      chainEndingAt_spec (loadFoundBlocks host node.storage.frames) tip
    have applied := applyChain_rule Inv shaped block reset
      (fun item member => mem_loadFoundBlocks (frames ▸ listed item member)) follows
    split
    next next ended =>
      rw [ended] at applied
      exact reload applied
    · exact applied

/-- The node of a restart before it applies blocks. -/
def restartBase (node : Node) : Node :=
  { node.reopen with
    flags := []
    names := node.reopen.names.loadFile node.reopen.namesFile
    storage := node.reopen.storage.resetActiveChain }

/-- A restart finds every stored block again. -/
theorem reopen_frames {log : List (Accepted host)} {node : Node}
    (frames : node.storage.frames = log.map fun accepted => .doc accepted.stored) :
    node.reopen.storage.frames = log.map fun accepted => .doc accepted.stored := by
  change node.storage.frames.filter Payload.scanned = _
  rw [frames, List.filter_eq_self]
  intro payload member
  obtain ⟨accepted, _, rfl⟩ := List.mem_map.mp member
  exact accepted.stored_isObject

/-- A restart applies the chosen chain, and reloads the mempool when it gets to the end. -/
theorem restart_eq (host : Host) (moment : Moment) (node : Node) :
    (∃ next, applyChain host (restartBase node)
        (chooseLongestChain (loadFoundBlocks host node.reopen.storage.frames)) = (next, .done) ∧
      restart host moment node = (loadMempool host moment next, .done)) ∨
    restart host moment node = applyChain host (restartBase node)
      (chooseLongestChain (loadFoundBlocks host node.reopen.storage.frames)) := by
  unfold restart restoreChain
  dsimp only
  split
  next next ended => exact .inl ⟨next, ended, rfl⟩
  · exact .inr rfl

/-- The rule for a restart. -/
theorem restart_rule {log : List (Accepted host)} (Inv : Node → Prop)
    (shaped : ∀ {node}, Inv node → node.storage.chainIndex.Shaped)
    (block : ∀ {node : Node} {accepted : Accepted host} {index : Nat}, Inv node →
      log[index]? = some accepted → accepted.height = node.storage.chainIndex.nextHeight →
      accepted.prev = node.storage.chainIndex.tip →
      Inv (applyBlock host node (accepted.found index)).1)
    {node : Node} (frames : node.storage.frames = log.map fun accepted => .doc accepted.stored)
    {moment : Moment} (reload : ∀ {node}, Inv node → Inv (loadMempool host moment node))
    (base : Inv (restartBase node)) : Inv (restart host moment node).1 := by
  obtain ⟨listed, follows⟩ :=
    chooseLongestChain_spec (loadFoundBlocks host node.reopen.storage.frames)
  have kept := reopen_frames frames
  have applied := applyChain_rule Inv shaped block base
    (fun item member => mem_loadFoundBlocks (kept ▸ listed item member)) follows
  rcases restart_eq host moment node with ⟨next, ended, finished⟩ | stopped
  · rw [ended] at applied
    rw [finished]
    exact reload applied
  · rw [stopped]
    exact applied

/-- Reloading the mempool leaves the index alone. -/
theorem loadMempool_chainIndex (moment : Moment) (node : Node) :
    (loadMempool host moment node).storage.chainIndex = node.storage.chainIndex := by
  obtain ⟨flags, mempool, file, loaded⟩ := loadMempool_eq host moment node
  rw [loaded]
  rfl

theorem Traced.reload {log : List (Accepted host)} {node : Node}
    (traced : Traced log node.storage.chainIndex) (moment : Moment) :
    Traced log (loadMempool host moment node).storage.chainIndex := by
  rw [loadMempool_chainIndex]
  exact traced

/-- A replay keeps the index traced. -/
theorem Traced.replay {log : List (Accepted host)} {node : Node}
    (traced : Traced log node.storage.chainIndex) (moment : Moment) (tip : Digest) :
    Traced log (rpcReplayChain host moment node tip).1.storage.chainIndex :=
  rpcReplayChain_rule (fun node => Traced log node.storage.chainIndex)
    (fun holds => holds.shaped) (fun holds listed next _ => holds.applyBlock listed next)
    traced.frames (fun holds => holds.reload moment) traced
    traced.reset tip

/-- The index of a restart before it applies blocks. -/
theorem Traced.restartBase {log : List (Accepted host)} {node : Node}
    (traced : Traced log node.storage.chainIndex) :
    Traced log (restartBase node).storage.chainIndex where
  shaped := .inl ⟨rfl, rfl, rfl⟩
  frames := reopen_frames traced.frames
  hashes _ _ found := nomatch found
  headers _ _ found := nomatch found
  heights _ _ _ listed := nomatch listed
  cached _ _ _ listed := nomatch listed

/-- A restart keeps the index traced: the scan finds every stored block again. -/
theorem Traced.restart {log : List (Accepted host)} {node : Node}
    (traced : Traced log node.storage.chainIndex) (moment : Moment) :
    Traced log (restart host moment node).1.storage.chainIndex :=
  restart_rule (fun node => Traced log node.storage.chainIndex)
    (fun holds => holds.shaped) (fun holds listed next _ => holds.applyBlock listed next)
    traced.frames (fun holds => holds.reload moment)
    traced.restartBase

end Apply

end PiSecure
