import PiSecure.Theory.Mining
import PiSecure.Theory.Stability

/-! # The active chain consists of accepted blocks

Over every run of the node in which no peer gets a binary block body stored,
the tip and the height index only hold blocks that passed the full rules of
`rpc_submitblock`, each on a node whose active chain was made of blocks accepted
before it.
-/

namespace PiSecure

variable {host : Host}

/-- The full rules of `rpc_submitblock` for a block: it follows the tip of the
node, has the difficulty of the next block there, its recomputed PiHash meets
it, and the coinbase and the transactions were checked. -/
structure FullRules (accepted : Accepted host) : Prop where
  parent : accepted.header.prevBlockHash = expectPrev accepted.node.storage
  height : accepted.height = accepted.node.nextHeight
  difficulty : accepted.header.difficulty = nextDifficulty accepted.node.storage
  merkle : accepted.header.merkleRoot =
    merkleRoot host (accepted.cb.txid :: accepted.txs.map Tx.txid)
  pihash : accepted.hash = accepted.checked.draft.pihash host accepted.header.merkleRoot
  work : Storage.validateBlockPow accepted.hash accepted.header.difficulty = true
  coinbase : checkCoinbase host accepted.height accepted.checked.draft.fields.coinbase
    accepted.checked.draft.cbOuts = .ok accepted.cb
  emission : checkPaid accepted.height (emissionFor accepted.height (feeUnits accepted.txs))
    (feeUnits accepted.txs) accepted.checked.draft.cbOuts = .ok ()
  transactions : checkTxs host accepted.node accepted.localPolicy accepted.height accepted.txs
    [accepted.cb] accepted.node.flags accepted.node.names =
      (accepted.names, .ok accepted.checked.flags)

/-- An accepted block met the full rules. -/
theorem Accepted.fullRules (accepted : Accepted host) : FullRules accepted := by
  have passed := accepted.passes
  obtain ⟨payout, drafted⟩ := passed.drafted
  obtain ⟨root, digest, _, _, _, work⟩ := checkWork_ok.mp passed.work
  refine ⟨accepted.prev_eq, accepted.height_eq, (checkStamp_ok.mp drafted.stamp).1, root, digest,
    work, drafted.cb, drafted.paid, passed.txs⟩

/-- Every connected block was checked on a node whose index traces back to the
blocks connected before it, and so does the index of the node itself. -/
structure Sourced (log : List (Accepted host)) (node : Node) : Prop where
  traced : Traced log node.storage.chainIndex
  earlier : ∀ accepted ∈ log, ∃ before, before <+: log ∧
    Traced before accepted.node.storage.chainIndex

section Connect

variable {log : List (Accepted host)} {node : Node} {moment : Moment} {localPolicy : Bool}
  {params : Json} {accepted : Accepted host}

/-- An accepted block is one above the tip. -/
theorem Traced.above (traced : Traced log node.storage.chainIndex)
    (passed : acceptance host moment localPolicy node params = some accepted) :
    accepted.height = node.storage.bestHeight + 1 := by
  rw [accepted.height_eq, (acceptance_of passed).node_eq, ← Storage.nextHeight_chainIndex]
  exact traced.shaped.nextHeight_eq

/-- Connecting a block extends the index by it. -/
theorem ChainIndex.Shaped.connect_index (shaped : node.storage.chainIndex.Shaped)
    (passed : acceptance host moment localPolicy node params = some accepted) :
    (connectBlock host moment localPolicy { node with names := accepted.names }
      accepted.checked).storage.chainIndex =
      node.storage.chainIndex.extend (node.storage.frames ++ [.doc accepted.stored])
        node.storage.frames.length accepted.header := by
  obtain ⟨names, challenges, outstanding, namesFile, connected⟩ :=
    connectBlock_eq host moment localPolicy { node with names := accepted.names }
      accepted.checked
  have next : accepted.header.height = node.storage.chainIndex.nextHeight := by
    rw [Storage.nextHeight_chainIndex, ← (acceptance_of passed).node_eq]
    exact accepted.height_eq
  rw [connected]
  exact chainIndex_storeBlock shaped next _

/-- Connecting a block keeps the index traced. -/
theorem Traced.connect (traced : Traced log node.storage.chainIndex)
    (passed : acceptance host moment localPolicy node params = some accepted) :
    Traced (log ++ [accepted]) (connectBlock host moment localPolicy
      { node with names := accepted.names } accepted.checked).storage.chainIndex := by
  have frames : node.storage.frames = log.map fun accepted => .doc accepted.stored := traced.frames
  rw [traced.shaped.connect_index passed]
  refine traced.extend (fun _ member => List.mem_append_left _ member)
    (List.mem_append_right _ (List.mem_singleton_self _)) ?_ ?_ _
  · rw [traced.shaped.nextHeight_eq]
    exact traced.above passed
  · rw [List.map_append, ← frames]
    rfl

end Connect

theorem sourced_stable : Stable host Sourced where
  reframed same sourced := ⟨same.index ▸ sourced.traced, sourced.earlier⟩
  connected {log} {node} {moment} {localPolicy} {params} {accepted} sourced passed _ := by
    refine ⟨sourced.traced.connect passed, ?_⟩
    intro other member
    rcases List.mem_append.mp member with older | isNew
    · obtain ⟨before, isPrefix, traced⟩ := sourced.earlier other older
      exact ⟨before, isPrefix.trans (List.prefix_append _ _), traced⟩
    · refine ⟨log, List.prefix_append _ _, ?_⟩
      rw [List.mem_singleton.mp isNew, (acceptance_of passed).node_eq]
      exact sourced.traced
  replayed moment tip sourced := ⟨sourced.traced.replay moment tip, sourced.earlier⟩
  restarted {log} {node} {next} moment sourced ended := by
    have traced := sourced.traced.restart moment
    rw [ended] at traced
    exact ⟨traced, sourced.earlier⟩

/-- A run that stores no binary block body keeps the node sourced. -/
theorem Sourced.run {wallets : Wallets} {calls : List Call} {log : List (Accepted host)}
    {node : Node}
    (run : (nodeMachine host).Runs (fun state call => Stable.storesBinary host state call = false)
      (Node.empty wallets) calls log node) : Sourced log node :=
  sourced_stable.run ⟨Traced.empty, fun _ impossible => nomatch impossible⟩ run

/-- **The active chain is accepted.** In a run that stores no binary block body,
the tip and every entry of the height index above the filler at height 0 are
blocks that met the full rules, on a node whose own chain was accepted before. -/
theorem active_chain_accepted {wallets : Wallets} {calls : List Call} {log : List (Accepted host)}
    {node : Node}
    (run : (nodeMachine host).Runs (fun state call => Stable.storesBinary host state call = false)
      (Node.empty wallets) calls log node) :
    (∀ tip, tipOf node.storage = some tip →
      ∃ accepted ∈ log, accepted.hash = tip ∧ FullRules accepted ∧
        ∃ before, before <+: log ∧ Traced before accepted.node.storage.chainIndex) ∧
    ∀ height hash, 1 ≤ height → node.storage.heightToHash[height]? = some hash →
      ∃ accepted ∈ log, accepted.hash = hash ∧ accepted.height = height ∧ FullRules accepted ∧
        ∃ before, before <+: log ∧ Traced before accepted.node.storage.chainIndex := by
  have sourced := Sourced.run run
  constructor
  · intro tip isTip
    unfold tipOf at isTip
    split at isTip
    next tipped =>
      cases isTip
      obtain ⟨accepted, member, named, _⟩ := sourced.traced.tip tipped
      exact ⟨accepted, member, named, accepted.fullRules, sourced.earlier accepted member⟩
    · cases isTip
  · intro height hash positive listed
    obtain ⟨accepted, member, named, placed⟩ := sourced.traced.heights height hash positive listed
    exact ⟨accepted, member, named, placed, accepted.fullRules, sourced.earlier accepted member⟩

/-- A binary body connects no block. -/
theorem connections_binary {payload : Bytes} (node : Node) (moments : Nat → Moment)
    (held : Option (Digest × List Json)) (binary : isJsonBody payload = false) :
    connections host node (.peerBlock moments held payload) = [] := by
  unfold connections
  dsimp only
  rw [binary, if_neg (fun json => Bool.false_ne_true json.1)]

/-- A binary body whose hash does not meet its difficulty. -/
def weakBody : Bytes := List.replicate 76 0 ++ [32] ++ List.replicate 35 0

/-- Such a body is stored nowhere. -/
theorem storableHeader_weakBody (storage : Storage) :
    storableHeader storedHost storage weakBody = none := by
  have weak : Storage.validateBlockPow (binaryHeader storedHost weakBody).hash
      (binaryHeader storedHost weakBody).difficulty = false := by
    decide +kernel
  rw [storableHeader, if_neg (by decide)]
  exact if_pos (Bool.eq_false_iff.mp weak)

/-- The run with a spend, a failed and a successful adoption, and a refused body. -/
theorem weakBody_run :
    (nodeMachine storedHost).Runs
      (fun state call => Stable.storesBinary storedHost state call = false)
      (Node.empty fun _ => none)
      (spendingCalls ++ [failingCall] ++ [branchCall] ++
        [.peerBlock (fun _ => sampleMoment) none weakBody])
      (branchedLog storedHost) (branchedNode storedHost) := by
  have plain : isJsonBody weakBody = false := by decide
  have before := branchedNode_run storedHost
    (spentNode_run storedHost
      (fun state call => Stable.storesBinary storedHost state call = false) rfl rfl)
    rfl rfl
  have refused := before.snoc (.peerBlock (fun _ => sampleMoment) none weakBody)
    (by rw [Stable.storesBinary, storableHeader_weakBody]; rfl) rfl
  have same : handleBlock storedHost (fun _ => sampleMoment) none
      (branchedNode storedHost) weakBody = branchedNode storedHost := by
    rw [handleBlock, plain, if_neg Bool.false_ne_true, storableHeader_weakBody]
  have silent : (nodeMachine storedHost).events (branchedNode storedHost)
      (.peerBlock (fun _ => sampleMoment) none weakBody) = [] :=
    connections_binary (branchedNode storedHost) (fun _ => sampleMoment) none plain
  rwa [same, silent, List.append_nil] at refused

theorem active_chain_accepted_branched :
    ∃ (calls : List Call) (log : List (Accepted storedHost)) (node : Node),
      (nodeMachine storedHost).Runs
        (fun state call => Stable.storesBinary storedHost state call = false)
        (Node.empty fun _ => none) calls log node ∧
      node.storage.heightToHash = [Digest.zero, openingHash, secondHash, thirdHash] ∧
      ∃ accepted ∈ log, accepted.hash = thirdHash ∧ accepted.height = 3 ∧ FullRules accepted := by
  obtain ⟨_, active, _⟩ := branched_shown
  have third : (branchedNode storedHost).storage.heightToHash[3]? = some thirdHash := by
    rw [active]
    rfl
  obtain ⟨accepted, member, named, placed, rules, _⟩ :=
    (active_chain_accepted weakBody_run).2 3 thirdHash (by decide) third
  exact ⟨_, _, _, weakBody_run, active, accepted, member, named, placed, rules⟩

/-- A binary block body: a header on top of the first block, whose difficulty is
zero, and nothing else. -/
def binaryBody : Bytes :=
  [1, 0, 0, 0] ++ openingHash.bytes ++ List.replicate 32 0 ++ [200, 0, 0, 0, 0, 0, 0, 0] ++
    List.replicate 36 0

/-- **A tip that was never accepted.** A binary body that only meets its own difficulty
becomes the tip. -/
theorem binary_body_is_tip :
    ∃ (host : Host) (calls : List Call) (log : List (Accepted host)) (node : Node),
      (nodeMachine host).Runs (fun _ _ => True) (Node.empty fun _ => none) calls log node ∧
      ∃ tip, tipOf node.storage = some tip ∧ ∀ accepted ∈ log, accepted.hash ≠ tip := by
  let host := Host.ofTables [] []
  let call := Call.peerBlock (fun _ => sampleMoment) none binaryBody
  have moved : (tipOf (handleBlock (Host.ofTables [] []) (fun _ => sampleMoment) none
      (openedNode (Host.ofTables [] [])) binaryBody).storage).any
        (fun tip => tip != openingHash) = true := by
    rw [openedNode_eq]
    decide +kernel
  have silent : connections host (openedNode host) call = [] :=
    connections_binary _ _ _ (by decide)
  obtain ⟨accepted, only, hash, _⟩ := openingLog_eq
  obtain ⟨tip, isTip, other⟩ := Option.any_eq_true _ _ |>.mp moved
  refine ⟨host, _, _, _, (openedNode_run host (fun _ _ => True) trivial).snoc call trivial rfl, tip,
    isTip, ?_⟩
  change ∀ accepted ∈ openingLog host ++ connections host (openedNode host) call, _
  rw [silent, List.append_nil, only, List.forall_mem_singleton, hash]
  exact fun same => bne_iff_ne.mp other same.symm

end PiSecure
