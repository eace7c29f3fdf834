import PiSecure.Theory.Stored

/-! # Where the blocks of a node come from

Every block that a node stores, indexes or has as its tip was connected before:
it passed all the checks of `rpc_submitblock` on a node whose tip was its
parent. Replays and restarts only index such blocks again.
-/

namespace PiSecure

namespace ChainIndex

/-- The height of the block that would follow the tip. -/
def nextHeight (chain : ChainIndex) : Nat :=
  if chain.heightToHash.isEmpty then 1 else chain.bestHeight + 1

/-- The parent of the block that would follow the tip. -/
def tip (chain : ChainIndex) : Digest :=
  if chain.heightToHash.isEmpty then Digest.zero else chain.bestBlockHash

/-- The index after a block at the next height. -/
def extend (chain : ChainIndex) (frames : List Payload) (index : Nat) (header : BlockHeader) :
    ChainIndex where
  frames := frames
  hashToIndex := chain.hashToIndex.insert header.hash index
  headersCache := chain.headersCache.insert header.hash header
  heightToHash := Storage.writeHeight chain.heightToHash header.height header.hash
  bestBlockHash := header.hash
  bestHeight := header.height

/-- The tip of an index is its last entry. -/
def Shaped (chain : ChainIndex) : Prop :=
  (chain.heightToHash = [] ∧ chain.bestBlockHash = Digest.zero ∧ chain.bestHeight = 0) ∨
    (1 ≤ chain.bestHeight ∧ chain.heightToHash.length = chain.bestHeight + 1 ∧
      chain.heightToHash[chain.bestHeight]? = some chain.bestBlockHash)

theorem Shaped.nextHeight_eq {chain : ChainIndex} (shaped : chain.Shaped) :
    chain.nextHeight = chain.bestHeight + 1 := by
  rcases shaped with ⟨noTip, _, zero⟩ | ⟨_, length, _⟩
  · rw [ChainIndex.nextHeight, noTip, zero]
    rfl
  · have tipped : chain.heightToHash.isEmpty = false := by
      rw [List.isEmpty_eq_false_iff, ← List.length_pos_iff]
      omega
    rw [ChainIndex.nextHeight, tipped]
    rfl

/-- The height index after a block at the next height. -/
theorem Shaped.writeHeight_eq {chain : ChainIndex} (shaped : chain.Shaped) (hash : Digest) :
    Storage.writeHeight chain.heightToHash chain.nextHeight hash =
      (if chain.heightToHash.isEmpty then [Digest.zero] else chain.heightToHash) ++ [hash] := by
  rw [shaped.nextHeight_eq]
  rcases shaped with ⟨noTip, _, zero⟩ | ⟨_, length, _⟩
  · rw [noTip, zero]
    rfl
  · have tipped : chain.heightToHash.isEmpty = false := by
      rw [List.isEmpty_eq_false_iff, ← List.length_pos_iff]
      omega
    have one : chain.bestHeight + 1 + 1 - chain.heightToHash.length = 1 := by omega
    rw [tipped, Storage.writeHeight, one, ← length, List.set_append_right _ _ (Nat.le_refl _),
      Nat.sub_self]
    rfl

theorem Shaped.extend {chain : ChainIndex} (shaped : chain.Shaped) (frames : List Payload)
    (index : Nat) {header : BlockHeader} (next : header.height = chain.nextHeight) :
    (chain.extend frames index header).Shaped := by
  have written := shaped.writeHeight_eq header.hash
  have height := shaped.nextHeight_eq
  refine .inr ?_
  change 1 ≤ header.height ∧ (Storage.writeHeight chain.heightToHash header.height _).length =
    header.height + 1 ∧ (Storage.writeHeight chain.heightToHash header.height _)[header.height]? =
    some header.hash
  rw [next, written, height]
  have length : (if chain.heightToHash.isEmpty then [Digest.zero] else chain.heightToHash).length =
      chain.bestHeight + 1 := by
    rcases shaped with ⟨noTip, _, zero⟩ | ⟨_, length, _⟩
    · rw [noTip, zero]
      rfl
    · rw [if_neg]
      · exact length
      · rw [List.isEmpty_iff, ← List.length_eq_zero_iff]
        omega
  refine ⟨Nat.succ_le_succ (Nat.zero_le _), ?_, ?_⟩
  · rw [List.length_append, length, List.length_singleton]
  · rw [← length, List.getElem?_append_right (Nat.le_refl _), Nat.sub_self]
    rfl

theorem Shaped.tip_extend {chain : ChainIndex} (shaped : chain.Shaped) (frames : List Payload)
    (index : Nat) {header : BlockHeader} (next : header.height = chain.nextHeight) :
    (chain.extend frames index header).tip = header.hash := by
  rcases shaped.extend frames index next with ⟨_, _, zero⟩ | ⟨_, length, _⟩
  · have positive := shaped.nextHeight_eq
    change header.height = 0 at zero
    omega
  · rw [ChainIndex.tip, if_neg]
    · rfl
    · rw [List.isEmpty_iff, ← List.length_eq_zero_iff]
      omega

/-- An entry of the extended height index is the new block or an old entry. -/
theorem Shaped.extend_heights {chain : ChainIndex} (shaped : chain.Shaped)
    {frames : List Payload} {index : Nat} {header : BlockHeader}
    (next : header.height = chain.nextHeight) {height : Nat} (positive : 1 ≤ height)
    {hash : Digest}
    (listed : (chain.extend frames index header).heightToHash[height]? = some hash) :
    (height = header.height ∧ hash = header.hash) ∨ chain.heightToHash[height]? = some hash := by
  change (Storage.writeHeight chain.heightToHash header.height header.hash)[height]? = _ at listed
  have bound := shaped.nextHeight_eq
  rw [next, shaped.writeHeight_eq] at listed
  rw [next, bound]
  rcases shaped with ⟨noTip, _, zero⟩ | ⟨_, length, _⟩
  · rw [noTip] at listed
    rw [zero]
    match height, listed, positive with
    | 1, listed, _ => exact .inl ⟨rfl, (Option.some.inj listed).symm⟩
  · have tipped : chain.heightToHash.isEmpty = false := by
      rw [List.isEmpty_eq_false_iff, ← List.length_pos_iff]
      omega
    rw [tipped] at listed
    change (chain.heightToHash ++ [header.hash])[height]? = some hash at listed
    rcases Nat.lt_or_ge height chain.heightToHash.length with older | newer
    · rw [List.getElem?_append_left older] at listed
      exact .inr listed
    · rw [List.getElem?_append_right newer, List.getElem?_singleton] at listed
      split at listed
      next last => exact .inl ⟨by omega, (Option.some.inj listed).symm⟩
      · cases listed

end ChainIndex

theorem Storage.nextHeight_chainIndex (node : Node) :
    node.storage.chainIndex.nextHeight = node.nextHeight := by
  unfold ChainIndex.nextHeight Node.nextHeight Storage.hasTip Storage.chainIndex
  cases node.storage.heightToHash <;> rfl

theorem Storage.tip_chainIndex (storage : Storage) :
    storage.chainIndex.tip = expectPrev storage := by
  unfold ChainIndex.tip expectPrev Storage.hasTip Storage.chainIndex
  cases storage.heightToHash <;> rfl

/-- Storing a block at the next height extends the index. -/
theorem chainIndex_storeBlock {storage : Storage} (shaped : storage.chainIndex.Shaped)
    {header : BlockHeader} (next : header.height = storage.chainIndex.nextHeight)
    (payload : Payload) :
    (storage.storeBlockWithHeader header.hash header payload).chainIndex =
      storage.chainIndex.extend (storage.frames ++ [payload]) storage.frames.length header := by
  have above : header.height > storage.bestHeight := by
    rw [next, shaped.nextHeight_eq]
    exact Nat.lt_succ_self _
  simp only [Storage.storeBlockWithHeader, Storage.chainIndex, ChainIndex.extend, above,
    ↓reduceIte]

/-- Indexing a block at the next height extends the index. -/
theorem chainIndex_indexExisting {storage next : Storage} (shaped : storage.chainIndex.Shaped)
    {header : BlockHeader} (follows : header.height = storage.chainIndex.nextHeight) {index : Nat}
    (indexed : storage.indexExistingBlock index header = some next) :
    next.chainIndex = storage.chainIndex.extend storage.frames index header := by
  have above : header.height > storage.bestHeight := by
    rw [follows, shaped.nextHeight_eq]
    exact Nat.lt_succ_self _
  unfold Storage.indexExistingBlock at indexed
  split at indexed
  · cases indexed
  · cases indexed
    simp only [Storage.chainIndex, ChainIndex.extend, above, true_or, ↓reduceIte]

/-! ## The invariant -/

section Traced

variable {host : Host}

/-- Everything in an index comes from connected blocks. -/
structure Traced (log : List (Accepted host)) (chain : ChainIndex) : Prop where
  shaped : chain.Shaped
  frames : chain.frames = log.map fun accepted => .doc accepted.stored
  hashes : ∀ hash index, chain.hashToIndex.lookup hash = some index →
    ∃ accepted ∈ log, accepted.hash = hash
  headers : ∀ hash header, chain.headersCache.lookup hash = some header →
    ∃ accepted ∈ log, accepted.hash = hash ∧ accepted.header = header
  heights : ∀ height hash, 1 ≤ height → chain.heightToHash[height]? = some hash →
    ∃ accepted ∈ log, accepted.hash = hash ∧ accepted.height = height
  cached : ∀ height hash, 1 ≤ height → chain.heightToHash[height]? = some hash →
    hash ∈ chain.headersCache

theorem Traced.empty : Traced ([] : List (Accepted host)) Storage.empty.chainIndex where
  shaped := .inl ⟨rfl, rfl, rfl⟩
  frames := rfl
  hashes _ _ found := nomatch found
  headers _ _ found := nomatch found
  heights _ _ _ listed := nomatch listed
  cached _ _ _ listed := nomatch listed

/-- A connected block may be put at the next height. -/
theorem Traced.extend {log more : List (Accepted host)} {chain : ChainIndex}
    (traced : Traced log chain) (grown : ∀ accepted ∈ log, accepted ∈ more)
    {accepted : Accepted host} (member : accepted ∈ more)
    (next : accepted.height = chain.nextHeight) {frames : List Payload}
    (stored : frames = more.map fun accepted => .doc accepted.stored) (index : Nat) :
    Traced more (chain.extend frames index accepted.header) where
  shaped := traced.shaped.extend frames index next
  frames := stored
  hashes hash other found := by
    by_cases same : hash = accepted.header.hash
    · exact ⟨accepted, member, same.symm⟩
    · rw [ChainIndex.extend, Finmap.lookup_insert_of_ne _ same] at found
      obtain ⟨older, listed, named⟩ := traced.hashes hash other found
      exact ⟨older, grown older listed, named⟩
  headers hash header found := by
    by_cases same : hash = accepted.header.hash
    · subst same
      rw [ChainIndex.extend, Finmap.lookup_insert] at found
      exact ⟨accepted, member, rfl, Option.some.inj found⟩
    · rw [ChainIndex.extend, Finmap.lookup_insert_of_ne _ same] at found
      obtain ⟨older, listed, named⟩ := traced.headers hash header found
      exact ⟨older, grown older listed, named⟩
  heights height hash positive listed := by
    rcases traced.shaped.extend_heights next positive listed with ⟨rfl, rfl⟩ | old
    · exact ⟨accepted, member, rfl, rfl⟩
    · obtain ⟨older, there, named⟩ := traced.heights height hash positive old
      exact ⟨older, grown older there, named⟩
  cached height hash positive listed := by
    refine Finmap.mem_insert.mpr ?_
    rcases traced.shaped.extend_heights next positive listed with ⟨_, same⟩ | old
    · exact .inl same
    · exact .inr (traced.cached height hash positive old)

/-- Resetting the active chain keeps what is stored. -/
theorem Traced.reset {log : List (Accepted host)} {storage : Storage}
    (traced : Traced log storage.chainIndex) : Traced log storage.resetActiveChain.chainIndex where
  shaped := .inl ⟨rfl, rfl, rfl⟩
  frames := traced.frames
  hashes := traced.hashes
  headers := traced.headers
  heights _ _ _ listed := nomatch listed
  cached _ _ _ listed := nomatch listed

/-- The tip of a node was connected. -/
theorem Traced.tip {log : List (Accepted host)} {storage : Storage}
    (traced : Traced log storage.chainIndex) (tipped : storage.hasTip = true) :
    ∃ accepted ∈ log, accepted.hash = storage.bestBlockHash ∧
      accepted.height = storage.bestHeight := by
  rcases traced.shaped with ⟨noTip, _⟩ | ⟨positive, _, listed⟩
  · change storage.heightToHash = [] at noTip
    rw [Storage.hasTip, noTip] at tipped
    cases tipped
  · exact traced.heights storage.bestHeight storage.bestBlockHash positive listed

end Traced

end PiSecure
