import PiSecure.Model.Session
import PiSecure.Theory.HeightIndex

/-! # What a block is served under

The index of a store points at frames, and a peer gets a frame by the hash that the index
has for it. Whatever the disk held, and through replays, adoptions and restarts, that frame
is a block of that hash: a document that names it, or a binary body that hashes to it.
-/

namespace PiSecure

variable {host : Host}

/-- A frame is a block of a hash. -/
def Payload.IsBlock (host : Host) (hash : Digest) (payload : Payload) : Prop :=
  ((payload.parse host).bind fun doc => (doc.text? "hash").bind fromHex) = some hash ∨
    ∃ bytes, payload = .raw bytes ∧ host.sha256 (bytes.take 112) = hash

/-- The index points at blocks of the hashes that it has. -/
def Indexed (host : Host) (storage : Storage) : Prop :=
  ∀ hash index, storage.blockIndex hash = some index →
    ∃ payload, storage.frames[index]? = some payload ∧ payload.IsBlock host hash

variable {node : Node} {storage : Storage}

/-! ## The store -/

theorem Indexed.congr {other : Storage} (indexed : Indexed host storage)
    (frames : other.frames = storage.frames) (index : other.hashToIndex = storage.hashToIndex) :
    Indexed host other := by
  intro hash place found
  rw [frames]
  refine indexed hash place ?_
  rw [Storage.blockIndex, ← index]
  exact found

theorem Indexed.store (indexed : Indexed host storage) {hash : Digest} {header : BlockHeader}
    {payload : Payload} (isBlock : payload.IsBlock host hash) :
    Indexed host (storage.storeBlockWithHeader hash header payload) := by
  intro other index found
  change (storage.hashToIndex.insert hash storage.frames.length).lookup other = some index at found
  change ∃ entry, (storage.frames ++ [payload])[index]? = some entry ∧ _
  by_cases same : other = hash
  · subst same
    rw [Finmap.lookup_insert] at found
    cases found
    exact ⟨payload, List.getElem?_concat_length, isBlock⟩
  · rw [Finmap.lookup_insert_of_ne _ same] at found
    obtain ⟨entry, listed, named⟩ := indexed other index found
    refine ⟨entry, ?_, named⟩
    rw [List.getElem?_append_left (List.getElem?_eq_some_iff.mp listed).1]
    exact listed

theorem Indexed.indexExisting (indexed : Indexed host storage) {next : Storage} {index : Nat}
    {header : BlockHeader} {payload : Payload} (listed : storage.frames[index]? = some payload)
    (isBlock : payload.IsBlock host header.hash)
    (stored : storage.indexExistingBlock index header = some next) :
    Indexed host next ∧ next.frames = storage.frames := by
  unfold Storage.indexExistingBlock at stored
  split at stored
  · cases stored
  · cases stored
    refine ⟨fun other place found => ?_, rfl⟩
    change (storage.hashToIndex.insert header.hash index).lookup other = some place at found
    by_cases same : other = header.hash
    · subst same
      rw [Finmap.lookup_insert] at found
      cases found
      exact ⟨payload, listed, isBlock⟩
    · rw [Finmap.lookup_insert_of_ne _ same] at found
      exact indexed other place found

/-! ## The calls -/

/-- The blocks that a scan finds are where it finds them. -/
theorem loadFoundBlocks_isBlock {frames : List Payload} {item : FoundBlock}
    (found : item ∈ loadFoundBlocks host frames) :
    ∃ payload, frames[item.index]? = some payload ∧ payload.IsBlock host item.hash := by
  obtain ⟨⟨payload, index⟩, listed, read⟩ := List.mem_filterMap.mp found
  simp only [foundBlock, Option.bind_eq_bind, Option.bind_eq_some_iff, Option.pure_def] at read
  obtain ⟨doc, parsed, height, _, prev, _, hash, named, same⟩ := read
  cases same
  refine ⟨payload, List.mk_mem_zipIdx_iff_getElem?.mp listed, .inl ?_⟩
  rw [parsed, Option.bind_some]
  obtain ⟨text, listed, decoded⟩ := named
  exact Option.bind_eq_some_iff.mpr ⟨text, listed, decoded⟩

theorem Indexed.applyChain {items : List FoundBlock} (indexed : Indexed host node.storage)
    (found : ∀ item ∈ items, item ∈ loadFoundBlocks host node.storage.frames) :
    Indexed host (applyChain host node items).1.storage := by
  induction items generalizing node with
  | nil => exact indexed
  | cons item rest ih =>
      obtain ⟨first, others⟩ := List.forall_mem_cons.mp found
      obtain ⟨payload, listed, isBlock⟩ := loadFoundBlocks_isBlock first
      rcases applyBlock_eq host node item with
        ⟨status, unfinished, stopped⟩ | ⟨header, storage, read, stored, utxo, flags, names, applied⟩
      · rw [PiSecure.applyChain, stopped]
        cases status with
        | done => exact absurd rfl unfinished
        | failed => exact indexed
        | thrown => exact indexed
      · rw [← (storedHeader_eq read).2.2] at isBlock
        obtain ⟨now, frames⟩ := indexed.indexExisting listed isBlock stored
        have next : Indexed host (applyBlock host node item).1.storage := by
          rw [applied]
          exact now.congr rfl rfl
        rw [PiSecure.applyChain]
        split
        next moved ended =>
          rw [ended] at next applied
          dsimp only at next applied
          refine ih next fun other member => ?_
          have same : moved.storage.frames = node.storage.frames := by
            rw [applied]
            exact frames
          rw [same]
          exact others other member
        · exact next

theorem Indexed.reframed {other : Node} (indexed : Indexed host node.storage)
    (same : SameChain node other) : Indexed host other.storage :=
  indexed.congr (congrArg ChainIndex.frames same.index) (congrArg ChainIndex.hashToIndex same.index)

theorem Indexed.replay (indexed : Indexed host node.storage) (moment : Moment) (tip : Digest) :
    Indexed host (rpcReplayChain host moment node tip).1.storage := by
  unfold rpcReplayChain
  dsimp only
  split
  · exact indexed
  · have reset : Indexed host ({ node with
        flags := [], storage := node.storage.resetActiveChain } : Node).storage :=
      indexed.congr rfl rfl
    have applied := @Indexed.applyChain _ _ (chainEndingAt _ tip) reset
      (chainEndingAt_spec (loadFoundBlocks host node.storage.frames) tip).1
    split
    next next ended =>
      rw [ended] at applied
      exact applied.reframed (loadMempool_sameChain moment next)
    · exact applied

/-- A restore indexes blocks where they are, on any disk. -/
theorem restoreChain_indexed (indexed : Indexed host node.storage) (moment : Moment) :
    Indexed host (restoreChain host moment node).1.storage := by
  unfold restoreChain
  dsimp only
  have reset : Indexed host ({ node with
      flags := []
      names := node.names.loadFile node.namesFile
      storage := node.storage.resetActiveChain } : Node).storage := indexed.congr rfl rfl
  have applied := reset.applyChain
    (chooseLongestChain_spec (loadFoundBlocks host node.storage.frames)).1
  split
  next next ended =>
    rw [ended] at applied
    exact applied.reframed (loadMempool_sameChain moment next)
  · exact applied

theorem Indexed.connect (indexed : Indexed host node.storage) {moment : Moment} {localPolicy : Bool}
    (accepted : Accepted host) {names : NameTable} :
    Indexed host (connectBlock host moment localPolicy { node with names := names }
      accepted.checked).storage := by
  obtain ⟨_, _, _, _, connected⟩ :=
    connectBlock_eq host moment localPolicy { node with names := names } accepted.checked
  have isBlock : (Payload.doc accepted.stored).IsBlock host accepted.hash := by
    refine .inl ?_
    rw [Payload.parse, Option.bind_some, accepted.stored_text? "hash" (toHex accepted.hash) rfl]
    exact fromHex_toHex _
  rw [connected]
  exact (@Indexed.store _ _ indexed _ (accepted.checked.draft.header accepted.checked.root
    accepted.checked.digest) _ isBlock).congr rfl rfl

/-- A process that has just opened its store has indexed nothing. -/
theorem indexed_reopen (node : Node) : Indexed host node.reopen.storage :=
  fun _ _ found => absurd found (Option.some_ne_none _).symm

theorem indexed_stable : Stable host fun _ node => Indexed host node.storage where
  reframed same indexed := indexed.reframed same
  connected {_ _ _ _ _} accepted indexed _ _ := indexed.connect accepted
  replayed moment tip indexed := indexed.replay moment tip
  restarted {log} {node} {next} moment _ ended := by
    have restored : Indexed host (restoreChain host moment node.reopen).1.storage :=
      restoreChain_indexed (indexed_reopen node) moment
    rw [restart] at ended
    rwa [ended] at restored

theorem storableHeader_hash {payload : Bytes} {header : BlockHeader}
    (storable : storableHeader host storage payload = some header) :
    header.hash = host.sha256 (payload.take 112) := by
  unfold storableHeader at storable
  dsimp only at storable
  split at storable
  · cases storable
  · split at storable
    · cases storable
    · split at storable
      · cases storable
      · split at storable
        · cases storable
          rfl
        · cases storable

/-- A binary body is stored under its own hash. -/
theorem Indexed.binary (indexed : Indexed host node.storage) {moments : Nat → Moment}
    {held : Option (Digest × List Json)} {payload : Bytes} (body : isJsonBody payload = false) :
    Indexed host (handleBlock host moments held node payload).storage := by
  unfold handleBlock
  rw [if_neg (Bool.eq_false_iff.mp body)]
  cases storable : storableHeader host node.storage payload with
  | none => exact indexed
  | some header =>
      have hashed : header.hash = host.sha256 (payload.take 112) := storableHeader_hash storable
      exact indexed.store (.inr ⟨payload, rfl, hashed.symm⟩)

theorem Indexed.step (indexed : Indexed host node.storage) {call : Call} {next : Node}
    (stepped : stepNode host node call = some next) : Indexed host next.storage := by
  by_cases plain : Stable.storesBinary host node call = false
  · exact @Stable.step _ _ [] _ indexed_stable indexed _ _ plain stepped
  · cases call with
    | peerBlock moments held payload =>
        cases stepped
        refine indexed.binary ?_
        simp only [Stable.storesBinary, Bool.not_eq_false, Bool.and_eq_true,
          Bool.not_eq_true'] at plain
        exact plain.1
    | _ => exact absurd rfl plain

/-- After a start on any disk, and whatever is called then. -/
theorem Indexed.run {disk : Node} {moment : Moment} {calls : List Call}
    {log : List (Accepted host)} {node : Node}
    (ran : (nodeMachine host).Runs (fun _ _ => True) (restart host moment disk).1 calls log node) :
    Indexed host node.storage := by
  exact @Machine.Runs.invariant _ _ _ _ _ _ (fun _ node => Indexed host node.storage)
    (restoreChain_indexed (indexed_reopen disk) moment)
    (fun indexed _ stepped => indexed.step stepped) _ _ _ ran

/-- **A block is served under its own hash.** After a start on any disk, and whatever calls
came then, what a peer gets for a hash is a frame of that hash: a document that names it, or
a binary body that hashes to it. -/
theorem served_block_named {disk : Node} {moment : Moment} {calls : List Call}
    {log : List (Accepted host)} {node : Node}
    (ran : (nodeMachine host).Runs (fun _ _ => True) (restart host moment disk).1 calls log node)
    {hash : Digest} {message : Message}
    (answer : P2PServer.served node.storage ⟨InvType.block.toUInt32, hash⟩ = some message) :
    message.type = .block ∧
      ∃ payload ∈ node.storage.frames, message.payload = payload.bytes ∧
        payload.IsBlock host hash := by
  rw [P2PServer.served, if_pos rfl, Option.map_eq_some_iff] at answer
  obtain ⟨bytes, read, rfl⟩ := answer
  obtain ⟨index, found, framed⟩ := Option.bind_eq_some_iff.mp read
  obtain ⟨payload, listed, isBlock⟩ := Indexed.run ran hash index found
  rw [Storage.readBlock, listed] at framed
  cases framed
  exact ⟨rfl, payload, List.mem_of_getElem? listed, rfl, isBlock⟩

theorem served_block_named_opening :
    ∃ (disk : Node) (calls : List Call) (log : List (Accepted (Host.ofTables [] []))) (node : Node)
      (hash : Digest) (message : Message),
      (nodeMachine (Host.ofTables [] [])).Runs (fun _ _ => True)
        (restart (Host.ofTables [] []) sampleMoment disk).1 calls log node ∧
      P2PServer.served node.storage ⟨InvType.block.toUInt32, hash⟩ = some message ∧
      message.type = .block ∧
      ∃ payload ∈ node.storage.frames, message.payload = payload.bytes ∧
        payload.IsBlock (Host.ofTables [] []) hash := by
  have run := openedNode_run (Host.ofTables [] []) (fun _ _ => True) trivial
  have found : (P2PServer.served (openedNode (Host.ofTables [] [])).storage
      ⟨InvType.block.toUInt32, openingHash⟩).isSome = true := by
    rw [openedNode_eq]
    decide +kernel
  obtain ⟨message, answer⟩ := Option.isSome_iff_exists.mp found
  exact ⟨Node.empty fun _ => none, _, _, _, openingHash, message, run, answer,
    @served_block_named (Host.ofTables [] []) (Node.empty fun _ => none) sampleMoment _ _ _ run _ _
      answer⟩

end PiSecure
