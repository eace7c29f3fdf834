import PiSecure.Theory.Acceptance
import PiSecure.Theory.LongestChain

/-! # The height index is the path to the tip

The active chain of a store as a list of headers. Resetting the chain empties the
list, and storing or indexing a block puts one header at its end, whatever the disk
holds and wherever a replay stops.
-/

namespace PiSecure

variable {host : Host}

/-! ## Paths of headers -/

/-- The entries of a height index on some headers; the first one is a filler. -/
def indexRows (chain : List BlockHeader) : List Digest :=
  Digest.zero :: chain.map BlockHeader.hash

theorem indexRows_append (chain : List BlockHeader) (header : BlockHeader) :
    indexRows (chain ++ [header]) = indexRows chain ++ [header.hash] := by
  rw [indexRows, List.map_append]
  rfl

theorem length_indexRows (chain : List BlockHeader) :
    (indexRows chain).length = chain.length + 1 := by
  rw [indexRows, List.length_cons, List.length_map]

/-- The active chain of an index is a list of headers with heights from 1 on. Each one
names the entry below its own as its parent. -/
structure Path (index : ChainIndex) (chain : List BlockHeader) : Prop where
  heights : index.heightToHash = if chain.isEmpty then [] else indexRows chain
  bestHeight : index.bestHeight = chain.length
  bestHash : (indexRows chain)[chain.length]? = some index.bestBlockHash
  links : ∀ (place : Nat) (header : BlockHeader), chain[place]? = some header →
    header.height = place + 1 ∧ (indexRows chain)[place]? = some header.prevBlockHash
  distinct : (chain.map BlockHeader.hash).Nodup
  cached : ∀ header ∈ chain, index.headersCache.lookup header.hash = some header
  stored : ∀ header ∈ chain, header.hash ∈ index.hashToIndex

namespace Path

variable {index : ChainIndex} {chain : List BlockHeader}

/-- A store without an active chain is on the empty path, whatever it has stored. -/
theorem of_reset (noHeights : index.heightToHash = []) (noHeight : index.bestHeight = 0)
    (noHash : index.bestBlockHash = Digest.zero) : Path index [] where
  heights := noHeights
  bestHeight := noHeight
  bestHash := by
    rw [noHash]
    rfl
  links _ _ listed := nomatch listed
  distinct := List.nodup_nil
  cached := List.forall_mem_nil _
  stored := List.forall_mem_nil _

theorem shaped (path : Path index chain) : index.Shaped := by
  have heights := path.heights
  have bestHash := path.bestHash
  cases chain with
  | nil => exact .inl ⟨heights, (Option.some.inj bestHash).symm, path.bestHeight⟩
  | cons first rest =>
      refine .inr ⟨?_, ?_, ?_⟩
      · rw [path.bestHeight]
        exact Nat.succ_le_succ (Nat.zero_le _)
      · rw [heights, path.bestHeight]
        exact length_indexRows _
      · rw [heights, path.bestHeight]
        exact bestHash

theorem nextHeight (path : Path index chain) : index.nextHeight = chain.length + 1 := by
  rw [path.shaped.nextHeight_eq, path.bestHeight]

theorem tip (path : Path index chain) : index.bestBlockHash = index.tip := by
  have heights := path.heights
  have bestHash := path.bestHash
  unfold ChainIndex.tip
  rw [heights]
  cases chain with
  | nil => exact (Option.some.inj bestHash).symm
  | cons first rest => rfl

/-- A block that follows the tip under a new hash goes at the end of the path. -/
theorem extend (path : Path index chain) {header : BlockHeader}
    (height : header.height = index.nextHeight) (prev : header.prevBlockHash = index.tip)
    (fresh : header.hash ∉ chain.map BlockHeader.hash) (frames : List Payload) (place : Nat) :
    Path (index.extend frames place header) (chain ++ [header]) where
  heights := by
    change Storage.writeHeight index.heightToHash header.height header.hash = _
    rw [height, path.shaped.writeHeight_eq, path.heights, indexRows_append]
    cases chain <;> rfl
  bestHeight := by
    rw [List.length_append, List.length_singleton, ← path.nextHeight]
    exact height
  bestHash := by
    rw [indexRows_append, List.length_append, List.length_singleton, ← length_indexRows,
      List.getElem?_concat_length]
    rfl
  links := by
    intro position other listed
    rw [indexRows_append]
    rcases Nat.lt_or_ge position chain.length with older | newer
    · rw [List.getElem?_append_left older] at listed
      rw [List.getElem?_append_left (by rw [length_indexRows]; omega)]
      exact path.links position other listed
    · rw [List.getElem?_append_right newer, List.getElem?_singleton] at listed
      split at listed
      next last =>
        cases listed
        have same : position = chain.length := by omega
        rw [same, List.getElem?_append_left (by rw [length_indexRows]; omega), path.bestHash, prev,
          path.tip]
        exact ⟨height.trans path.nextHeight, rfl⟩
      · cases listed
  distinct := by
    rw [List.map_append, List.map_singleton, ← List.concat_eq_append]
    exact path.distinct.concat fresh
  cached := by
    intro other member
    rcases List.mem_append.mp member with older | isNew
    · have apart : other.hash ≠ header.hash := by
        intro same
        exact fresh (same ▸ List.mem_map_of_mem older)
      exact (Finmap.lookup_insert_of_ne _ apart).trans (path.cached other older)
    · rw [List.mem_singleton.mp isNew]
      exact Finmap.lookup_insert _
  stored := by
    intro other member
    refine Finmap.mem_insert.mpr ?_
    rcases List.mem_append.mp member with older | isNew
    · exact .inr (path.stored other older)
    · exact .inl (congrArg BlockHeader.hash (List.mem_singleton.mp isNew))

end Path

/-! ## What the calls do to the path -/

/-- A node with an active path. -/
def OnPath (node : Node) : Prop := ∃ chain, Path node.storage.chainIndex chain

theorem OnPath.reframed {node other : Node} (onPath : OnPath node) (same : SameChain node other) :
    OnPath other := by
  obtain ⟨chain, path⟩ := onPath
  exact ⟨chain, same.index ▸ path⟩

/-- A connected block was not stored, so its hash is new to the path. -/
theorem Path.connect {node : Node} {chain : List BlockHeader}
    (path : Path node.storage.chainIndex chain) {moment : Moment} {localPolicy : Bool}
    {params : Json} {accepted : Accepted host}
    (passed : acceptance host moment localPolicy node params = some accepted)
    (unstored : node.storage.blockIndex accepted.hash = none) :
    Path (connectBlock host moment localPolicy { node with names := accepted.names }
      accepted.checked).storage.chainIndex (chain ++ [accepted.header]) := by
  have height : accepted.header.height = node.storage.chainIndex.nextHeight := by
    rw [Storage.nextHeight_chainIndex, ← (acceptance_of passed).node_eq]
    exact accepted.height_eq
  have prev : accepted.header.prevBlockHash = node.storage.chainIndex.tip := by
    rw [Storage.tip_chainIndex, ← (acceptance_of passed).node_eq]
    exact accepted.prev_eq
  have fresh : accepted.header.hash ∉ chain.map BlockHeader.hash := by
    intro listed
    obtain ⟨other, member, same⟩ := List.mem_map.mp listed
    have known := path.stored other member
    rw [same] at known
    exact Finmap.lookup_eq_none.mp unstored known
  rw [path.shaped.connect_index passed]
  exact path.extend height prev fresh _ _

theorem OnPath.connect {node : Node} (onPath : OnPath node) {moment : Moment} {localPolicy : Bool}
    {params : Json} {accepted : Accepted host}
    (passed : acceptance host moment localPolicy node params = some accepted)
    (unstored : node.storage.blockIndex accepted.hash = none) :
    OnPath (connectBlock host moment localPolicy { node with names := accepted.names }
      accepted.checked) := by
  obtain ⟨chain, path⟩ := onPath
  exact ⟨chain ++ [accepted.header], path.connect passed unstored⟩

/-- The header that a stored block is indexed under names its place, its parent and its
hash. -/
theorem storedHeader_eq {item : FoundBlock} {header : BlockHeader}
    (read : storedHeader item = some header) :
    header.height = item.height ∧ header.prevBlockHash = item.prev ∧ header.hash = item.hash := by
  simp only [storedHeader, Option.bind_eq_bind, Option.bind_eq_some_iff, Option.pure_def,
    Option.some.injEq] at read
  obtain ⟨_, _, _, _, _, _, _, _, _, _, rfl⟩ := read
  exact ⟨rfl, rfl, rfl⟩

/-- Applying linked blocks of different hashes prolongs the path, up to where it stops. -/
theorem Path.applyChain {node : Node} {chain : List BlockHeader}
    (path : Path node.storage.chainIndex chain) {items : List FoundBlock}
    (follows : linked items node.storage.chainIndex.nextHeight node.storage.chainIndex.tip = true)
    (distinct : (chain.map BlockHeader.hash ++ items.map FoundBlock.hash).Nodup) :
    OnPath (applyChain host node items).1 := by
  induction items generalizing node chain with
  | nil => exact ⟨chain, path⟩
  | cons item rest ih =>
      obtain ⟨height, prev, later⟩ := linked_cons.mp follows
      rcases applyBlock_eq host node item with
        ⟨status, unfinished, stopped⟩ |
          ⟨header, storage, read, indexed, utxo, flags, names, applied⟩
      · rw [PiSecure.applyChain, stopped]
        cases status with
        | done => exact absurd rfl unfinished
        | failed => exact ⟨chain, path⟩
        | thrown => exact ⟨chain, path⟩
      · obtain ⟨sameHeight, samePrev, sameHash⟩ := storedHeader_eq read
        rw [← sameHeight] at height
        rw [← samePrev] at prev
        have fresh : header.hash ∉ chain.map BlockHeader.hash := by
          intro listed
          rw [sameHash] at listed
          exact (List.nodup_append.mp distinct).2.2 _ listed _ List.mem_cons_self rfl
        have longer := path.extend height prev fresh node.storage.frames item.index
        rw [← chainIndex_indexExisting path.shaped height indexed] at longer
        rw [PiSecure.applyChain]
        rcases outcome : applyBlock host node item with ⟨next, status⟩
        rw [outcome] at applied
        have there : Path next.storage.chainIndex (chain ++ [header]) := by
          dsimp only at applied
          rw [applied]
          exact longer
        have nextHeight : next.storage.chainIndex.nextHeight =
            node.storage.chainIndex.nextHeight + 1 := by
          rw [there.nextHeight, path.nextHeight, List.length_append, List.length_singleton]
        have tip : next.storage.chainIndex.tip = item.hash := by
          have last := there.bestHash
          rw [indexRows_append, List.length_append, List.length_singleton, ← length_indexRows,
            List.getElem?_concat_length, sameHash, there.tip] at last
          exact (Option.some.inj last).symm
        cases status with
        | done =>
            refine ih there ?_ ?_
            · rw [nextHeight, tip]
              exact later
            · rw [List.map_append, List.map_singleton, sameHash, List.append_assoc]
              exact distinct
        | failed => exact ⟨_, there⟩
        | thrown => exact ⟨_, there⟩

/-- The blocks of a selected chain have different hashes: each counts for its hash, and
their heights differ. -/
theorem ChainTo.hashes_nodup {found : List FoundBlock} {tip : Digest} {chain : List FoundBlock}
    (indices : (found.map FoundBlock.index).Nodup) (chainTo : ChainTo found tip chain) :
    (chain.map FoundBlock.hash).Nodup := by
  refine (List.nodup_map_iff_inj_on chainTo.nodup).mpr ?_
  intro block member other listed same
  have first := (byHash_eq_some indices).mpr ⟨chainTo.represented block member, same⟩
  have second := (byHash_eq_some indices).mpr ⟨chainTo.represented other listed, rfl⟩
  exact Option.some.inj (first.symm.trans second)

/-- Applying a chain of the disk to a reset store leads to a path, wherever it stops. -/
theorem applyChain_onPath {node : Node} (path : Path node.storage.chainIndex [])
    (frames : List Payload) {chain : List FoundBlock}
    (selected : chain = [] ∨ ∃ tip, ChainTo (loadFoundBlocks host frames) tip chain) :
    OnPath (applyChain host node chain).1 := by
  rcases selected with rfl | ⟨tip, chainTo⟩
  · exact ⟨[], path⟩
  · refine path.applyChain ?_ (chainTo.hashes_nodup (loadFoundBlocks_indices host frames))
    rw [path.nextHeight, ← path.tip, ← Option.some.inj path.bestHash]
    exact chainTo.linked

theorem chainEndingAt_selected (frames : List Payload) (tip : Digest) :
    chainEndingAt (loadFoundBlocks host frames) tip = [] ∨
      ∃ last, ChainTo (loadFoundBlocks host frames) last
        (chainEndingAt (loadFoundBlocks host frames) tip) := by
  by_cases none : chainEndingAt (loadFoundBlocks host frames) tip = []
  · exact .inl none
  · exact .inr ⟨tip, (chainTo_iff (loadFoundBlocks_indices host frames)).mpr ⟨none, rfl⟩⟩

theorem OnPath.replay {node : Node} (onPath : OnPath node) (moment : Moment) (tip : Digest) :
    OnPath (rpcReplayChain host moment node tip).1 := by
  unfold rpcReplayChain
  dsimp only
  split
  · exact onPath
  · have applied := @applyChain_onPath host
      { node with flags := [], storage := node.storage.resetActiveChain }
      (Path.of_reset rfl rfl rfl) _ _ (chainEndingAt_selected node.storage.frames tip)
    split
    next next ended =>
      rw [ended] at applied
      exact applied.reframed (loadMempool_sameChain moment next)
    · exact applied

/-- A restore leads to a path on any disk, also when it fails. -/
theorem restoreChain_onPath (moment : Moment) (node : Node) :
    OnPath (restoreChain host moment node).1 := by
  have selected : chooseLongestChain (loadFoundBlocks host node.storage.frames) = [] ∨
      ∃ tip, ChainTo (loadFoundBlocks host node.storage.frames) tip
        (chooseLongestChain (loadFoundBlocks host node.storage.frames)) := by
    rcases (longest_chain (loadFoundBlocks_indices host node.storage.frames)).2.2 with
      tallest | ⟨none, _⟩
    · exact .inr tallest.chainTo
    · exact .inl none
  unfold restoreChain
  dsimp only
  have applied := @applyChain_onPath host
    { node with
      flags := []
      names := node.names.loadFile node.namesFile
      storage := node.storage.resetActiveChain }
    (Path.of_reset rfl rfl rfl) _ _ selected
  split
  next next ended =>
    rw [ended] at applied
    exact applied.reframed (loadMempool_sameChain moment next)
  · exact applied

theorem onPath_stable : Stable host fun _ node => OnPath node where
  reframed same onPath := onPath.reframed same
  connected onPath passed unstored := onPath.connect passed unstored
  replayed moment tip onPath := onPath.replay moment tip
  restarted {log} {node} {next} moment _ ended := by
    have restored := @restoreChain_onPath host moment node.reopen
    rw [restart] at ended
    rwa [ended] at restored

/-! ## The height index -/

/-- The height index of a store is the path to its tip. -/
structure PathToTip (storage : Storage) : Prop where
  length : storage.heightToHash.length = storage.bestHeight + 1
  last : storage.heightToHash.getLast? = some storage.bestBlockHash
  header : ∀ height, 1 ≤ height → height ≤ storage.bestHeight →
    ∃ header, storage.getHeaderByHeight height = some header ∧ header.height = height ∧
      storage.heightToHash[height]? = some header.hash
  parent : ∀ height header parent, 1 ≤ height →
    storage.getHeaderByHeight height = some parent →
    storage.getHeaderByHeight (height + 1) = some header → header.prevBlockHash = parent.hash
  root : ∀ header, storage.getHeaderByHeight 1 = some header → header.prevBlockHash = Digest.zero

/-- The header at a height of a path is the one at its place. -/
theorem Path.getHeaderByHeight_eq {storage : Storage} {chain : List BlockHeader}
    (path : Path storage.chainIndex chain) (place : Nat) :
    storage.getHeaderByHeight (place + 1) = chain[place]? := by
  have heights : storage.heightToHash = if chain.isEmpty then [] else indexRows chain :=
    path.heights
  cases chain with
  | nil =>
      rw [Storage.getHeaderByHeight, heights]
      rfl
  | cons first rest =>
      have row : storage.heightToHash[place + 1]? =
          ((first :: rest)[place]?).map BlockHeader.hash := by
        rw [heights, ← List.getElem?_map]
        rfl
      rw [Storage.getHeaderByHeight, row]
      cases listed : (first :: rest)[place]? with
      | none => rfl
      | some header => exact path.cached header (List.mem_of_getElem? listed)

/-- The height index of a path that is not empty. -/
theorem Path.rows {storage : Storage} {chain : List BlockHeader}
    (path : Path storage.chainIndex chain) (nonempty : 0 < chain.length) :
    storage.heightToHash = indexRows chain := by
  have heights : storage.heightToHash = if chain.isEmpty then [] else indexRows chain :=
    path.heights
  cases chain with
  | nil => cases nonempty
  | cons first rest => exact heights

theorem Path.toTip {storage : Storage} {chain : List BlockHeader}
    (path : Path storage.chainIndex chain) (tipped : storage.hasTip = true) :
    PathToTip storage := by
  have nonempty : 0 < chain.length := by
    have heights : storage.heightToHash = if chain.isEmpty then [] else indexRows chain :=
      path.heights
    cases chain with
    | nil =>
        rw [Storage.hasTip, heights] at tipped
        cases tipped
    | cons first rest => exact Nat.succ_pos _
  have rows := path.rows nonempty
  have bestHeight : storage.bestHeight = chain.length := path.bestHeight
  have bestHash : (indexRows chain)[chain.length]? = some storage.bestBlockHash := path.bestHash
  refine ⟨?_, ?_, ?_, ?_, ?_⟩
  · rw [rows, length_indexRows, bestHeight]
  · rw [rows, List.getLast?_eq_getElem?, length_indexRows, Nat.add_sub_cancel]
    exact bestHash
  · intro height positive below
    obtain ⟨place, rfl⟩ : ∃ place, height = place + 1 := ⟨height - 1, by omega⟩
    have inside : place < chain.length := by omega
    have listed := List.getElem?_eq_getElem inside
    refine ⟨chain[place], ?_, (path.links _ _ listed).1, ?_⟩
    · rw [path.getHeaderByHeight_eq]
      exact listed
    · rw [rows]
      change (chain.map BlockHeader.hash)[place]? = _
      rw [List.getElem?_map, listed]
      rfl
  · intro height header parent positive below above
    obtain ⟨place, rfl⟩ : ∃ place, height = place + 1 := ⟨height - 1, by omega⟩
    rw [path.getHeaderByHeight_eq] at below above
    have named := (path.links _ _ above).2
    change (chain.map BlockHeader.hash)[place]? = _ at named
    rw [List.getElem?_map, below] at named
    exact (Option.some.inj named).symm
  · intro header first
    rw [path.getHeaderByHeight_eq] at first
    exact (Option.some.inj (path.links _ _ first).2).symm

/-- After a restore on any disk, a run without binary block bodies stays on a path. -/
theorem OnPath.run {base : Node} {moment : Moment} {calls : List Call}
    {log : List (Accepted host)} {node : Node}
    (run : (nodeMachine host).Runs (fun state call => Stable.storesBinary host state call = false)
      (restoreChain host moment base).1 calls log node) : OnPath node :=
  @Machine.Runs.invariant _ _ _ _ _ _ (fun _ node => OnPath node)
    (restoreChain_onPath moment base)
    (fun holds plain stepped => @Stable.step _ _ [] _ onPath_stable holds _ _ plain stepped)
    _ _ _ run

/-- **The height index is the path to the tip.** On any disk, after a restore that may
stop midway and any calls that store no binary block body, a node with a tip has the
headers of heights from 1 up to it, each the child of the one below. -/
theorem height_index_path {base : Node} {moment : Moment} {calls : List Call}
    {log : List (Accepted host)} {node : Node}
    (run : (nodeMachine host).Runs (fun state call => Stable.storesBinary host state call = false)
      (restoreChain host moment base).1 calls log node)
    (tipped : node.storage.hasTip = true) : PathToTip node.storage := by
  obtain ⟨chain, path⟩ := OnPath.run run
  exact path.toTip tipped

theorem height_index_path_branched :
    ∃ (base : Node) (calls : List Call) (log : List (Accepted storedHost)) (node : Node),
      (nodeMachine storedHost).Runs
        (fun state call => Stable.storesBinary storedHost state call = false)
        (restoreChain storedHost sampleMoment base).1 calls log node ∧
      node.storage.heightToHash = [Digest.zero, openingHash, secondHash, thirdHash] ∧
      PathToTip node.storage := by
  obtain ⟨_, active, _⟩ := branched_shown
  have tipped : (branchedNode storedHost).storage.hasTip = true := by
    rw [Storage.hasTip, active]
    rfl
  exact ⟨Node.empty fun _ => none, _, _, _, weakBody_run, active,
    @height_index_path storedHost (Node.empty fun _ => none) sampleMoment _ _ _
      weakBody_run tipped⟩

end PiSecure
