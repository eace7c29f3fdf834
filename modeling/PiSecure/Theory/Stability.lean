import PiSecure.Theory.Selection

/-! # What every call preserves

The calls that connect blocks do it through single submissions and replays. A
statement that survives those survives the whole call.
-/

namespace PiSecure

variable {host : Host}

/-- Two nodes with the same blocks and coins. Names may have been remembered. -/
structure SameChain (node other : Node) : Prop where
  index : other.storage.chainIndex = node.storage.chainIndex
  utxo : other.storage.utxo = node.storage.utxo
  names : node.names.Written other.names

/-! ## Calls besides the chain -/

section Frames

theorem SameChain.trans {node middle other : Node} (first : SameChain node middle)
    (second : SameChain middle other) : SameChain node other where
  index := second.index.trans first.index
  utxo := second.utxo.trans first.utxo
  names := first.names.trans second.names

theorem admitTx_sameChain (moment : Moment) (node : Node) (flags : FlagBook) (tx : Tx) :
    SameChain node (admitTx host moment node flags tx).1 := by
  unfold admitTx
  dsimp only
  split
  · exact ⟨rfl, rfl, .refl⟩
  · split
    · exact ⟨rfl, rfl, .refl⟩
    next names remembered => exact ⟨rfl, rfl, NameTable.Written.refl.remember remembered⟩

theorem checkPending_written (host : Host) (node : Node) (height : Nat) (prior : List Tx)
    (staged : FlagBook) (tx : Tx) :
    node.names.Written (checkPending host node height prior staged tx).1 := by
  have checked := checkTx_written host node true height prior staged tx node.names
  unfold checkPending
  split
  next names reason ended =>
    rw [ended] at checked
    exact checked
  next names flags ended =>
    rw [ended] at checked
    split <;> exact checked

/-- Sending a transaction leaves the blocks and the coins alone. -/
theorem rpcSendtransaction_sameChain (moment : Moment) (node : Node) (params : Json) :
    SameChain node (rpcSendtransaction host moment node params).1 := by
  unfold rpcSendtransaction
  split
  · split
    · exact ⟨rfl, rfl, .refl⟩
    · dsimp only
      split
      · exact ⟨rfl, rfl, .refl⟩
      next parsed _ _ =>
        have checked := checkPending_written host node
          node.nextHeight (mempoolTxs host moment node)
          (stagePending node.flags (mempoolTxs host moment node) node.nextHeight)
          (node.names.resolveOutputNames host parsed)
        split
        · exact admitTx_sameChain moment node _ _
        · split
          next names reason ended =>
            rw [ended] at checked
            exact ⟨rfl, rfl, checked⟩
          next names flags ended =>
            rw [ended] at checked
            exact @SameChain.trans node { node with names := names } _ ⟨rfl, rfl, checked⟩
              (admitTx_sameChain moment { node with names := names } flags _)
  · exact ⟨rfl, rfl, .refl⟩

/-- Handing out a template only touches the challenges. -/
theorem rpcGetblocktemplate_eq (host : Host) (moment : Moment) (node : Node) (params : Json) :
    ∃ challenges outstanding, (rpcGetblocktemplate host moment node params).1 =
      { node with challenges := challenges, outstanding := outstanding } := by
  unfold rpcGetblocktemplate
  split
  · exact ⟨_, _, rfl⟩
  · split
    · unfold challengeForTemplate
      dsimp only
      split
      · exact ⟨_, _, rfl⟩
      · split <;> exact ⟨_, _, rfl⟩
    · exact ⟨_, _, rfl⟩

theorem rpcGetblocktemplate_sameChain (moment : Moment) (node : Node) (params : Json) :
    SameChain node (rpcGetblocktemplate host moment node params).1 := by
  obtain ⟨challenges, outstanding, handed⟩ := rpcGetblocktemplate_eq host moment node params
  rw [handed]
  exact ⟨rfl, rfl, .refl⟩

/-- A transaction message puts in at most its own payload, under its hash. -/
theorem handleTx_eq (host : Host) (node : Node) (payload : Bytes) :
    handleTx host node payload = node ∨
      handleTx host node payload = { node with
        storage.mempool := node.storage.mempool.insert (host.sha256 payload)
          ⟨host.sha256 payload, .raw payload⟩ } := by
  unfold handleTx
  dsimp only
  generalize (if isJsonBody payload = true then
    (((host.parse payload).bind fun obj => obj.array? "inputs").map List.length).getD 0
    else 0) = inputs
  split
  · exact .inl rfl
  · exact .inr rfl

theorem handleTx_sameChain (node : Node) (payload : Bytes) :
    SameChain node (handleTx host node payload) := by
  rcases handleTx_eq host node payload with kept | kept <;> rw [kept] <;> exact ⟨rfl, rfl, .refl⟩

/-- Reloading the mempool leaves the blocks and the coins alone. -/
theorem loadMempool_sameChain (moment : Moment) (node : Node) :
    SameChain node (loadMempool host moment node) := by
  obtain ⟨flags, mempool, file, loaded⟩ := loadMempool_eq host moment node
  rw [loaded]
  exact ⟨rfl, rfl, .refl⟩

end Frames

/-! ## Stable statements -/

/-- A statement about the connected blocks and the node that survives a change
besides the chain, a connected block, a replay and a restart. -/
structure Stable (host : Host) (Inv : List (Accepted host) → Node → Prop) : Prop where
  reframed : ∀ {log node other}, SameChain node other → Inv log node → Inv log other
  connected : ∀ {log node moment localPolicy params} {accepted : Accepted host}, Inv log node →
    acceptance host moment localPolicy node params = some accepted →
    node.storage.blockIndex accepted.hash = none →
    Inv (log ++ [accepted])
      (connectBlock host moment localPolicy { node with names := accepted.names } accepted.checked)
  replayed : ∀ {log node} (moment : Moment) (tip : Digest), Inv log node →
    Inv log (rpcReplayChain host moment node tip).1
  restarted : ∀ {log node next} (moment : Moment), Inv log node →
    restart host moment node = (next, .done) → Inv log next

namespace Stable

variable {Inv : List (Accepted host) → Node → Prop} {log : List (Accepted host)} {node : Node}

theorem submit (stable : Stable host Inv) (holds : Inv log node) (moment : Moment)
    (localPolicy : Bool) (params : Json) :
    Inv (log ++ connection host moment localPolicy node params)
      (rpcSubmitblock host moment localPolicy node params).1 := by
  rcases submission_cases host moment localPolicy node params with
    ⟨none, names, written, same⟩ | ⟨accepted, passed, fresh, one, connected⟩
  · rw [none, same, List.append_nil]
    exact @Stable.reframed _ _ stable _ node _ ⟨rfl, rfl, written⟩ holds
  · rw [one, connected]
    exact stable.connected holds passed fresh

theorem adoptBlocks (stable : Stable host Inv) (holds : Inv log node) (moments : Nat → Moment)
    (turn : Nat) (blocks : List Json) :
    Inv (log ++ adoptConnections host moments turn node blocks)
      (adoptBlocks host moments turn node blocks).1 := by
  induction blocks generalizing log node turn with
  | nil =>
      rw [adoptConnections, List.append_nil]
      exact holds
  | cons block rest ih =>
      have first := stable.submit holds (moments turn) false block
      rw [adoptConnections, PiSecure.adoptBlocks]
      rcases outcome : rpcSubmitblock host (moments turn) false node block with ⟨next, verdict⟩
      rw [outcome] at first
      cases verdict with
      | accepted hash height duplicate =>
          rw [← List.append_assoc]
          exact ih first (turn + 1)
      | refused refusal =>
          simp only [List.append_nil]
          cases refusal <;> exact first

theorem settle (stable : Stable host Inv) {adopted : Node × Status} (holds : Inv log adopted.1)
    (moment : Moment) (oldTip : Option Digest) (blocks : List Json) :
    Inv log (settleAdoption host moment oldTip blocks adopted).1 := by
  obtain ⟨node, status⟩ := adopted
  cases status with
  | done =>
      unfold settleAdoption
      dsimp only
      split <;> exact holds
  | failed =>
      cases oldTip with
      | none => exact holds
      | some tip =>
          have replayed := stable.replayed moment tip holds
          unfold settleAdoption
          dsimp only
          rcases outcome : rpcReplayChain host moment node tip with ⟨final, status⟩
          rw [outcome] at replayed
          cases status <;> exact replayed
  | thrown => exact holds

/-- An adoption starts on the node itself or after a replay. -/
theorem start (stable : Stable host Inv) (holds : Inv log node) {moment : Moment}
    {ancestor : Digest} {blocks : List Json} {based : Node × Status}
    (started : adoptionStart host moment node ancestor blocks = .ok based) : Inv log based.1 := by
  unfold adoptionStart at started
  split at started
  · cases started
  · split at started
    · cases started
    · split at started
      · cases started
      · split at started
        · cases started
        · split at started
          · cases started
            exact holds
          · cases started
            exact stable.replayed moment ancestor holds

theorem adopt (stable : Stable host Inv) (holds : Inv log node) (moments : Nat → Moment)
    (ancestor : Digest) (blocks : List Json) :
    Inv (log ++ adoptionConnections host moments node ancestor blocks)
      (rpcAdoptPeerChain host moments node ancestor blocks).1 := by
  unfold rpcAdoptPeerChain adoptionConnections
  cases started : adoptionStart host (moments 0) node ancestor blocks with
  | error status =>
      rw [List.append_nil]
      exact holds
  | ok based =>
      have begun := stable.start holds started
      obtain ⟨based, status⟩ := based
      cases status with
      | done => exact stable.settle (stable.adoptBlocks begun moments 1 blocks) _ _ _
      | failed =>
          simp only [List.append_nil]
          exact begun
      | thrown =>
          simp only [List.append_nil]
          exact begun

theorem jsonBlock (stable : Stable host Inv) (holds : Inv log node) (moments : Nat → Moment)
    (held : Option (Digest × List Json)) (block : Json) :
    Inv (log ++ jsonBlockConnections host moments held node block)
      (handleJsonBlock host moments held node block) := by
  have submitted := stable.submit holds (moments 0) false block
  unfold jsonBlockConnections handleJsonBlock
  rcases outcome : rpcSubmitblock host (moments 0) false node block with ⟨next, verdict⟩
  rw [outcome] at submitted
  cases verdict with
  | accepted hash height duplicate =>
      simp only [List.append_nil]
      exact submitted
  | refused refusal =>
      cases refusal with
      | thrown =>
          simp only [List.append_nil]
          exact submitted
      | reason reason =>
          cases held with
          | none =>
              simp only [List.append_nil, ite_self]
              exact submitted
          | some candidate =>
              obtain ⟨ancestor, blocks⟩ := candidate
              dsimp only
              split
              · rw [← List.append_assoc]
                exact stable.adopt submitted _ ancestor blocks
              · rw [List.append_nil]
                exact submitted

/-- Whether a block message stores a binary body. -/
def storesBinary (host : Host) (node : Node) : Call → Bool
  | .peerBlock _ _ payload =>
      !isJsonBody payload && (storableHeader host node.storage payload).isSome
  | _ => false

theorem peerBlock (stable : Stable host Inv) (holds : Inv log node) (moments : Nat → Moment)
    (held : Option (Digest × List Json)) (payload : Bytes)
    (rejected : storesBinary host node (.peerBlock moments held payload) = false) :
    Inv (log ++ connections host node (.peerBlock moments held payload))
      (handleBlock host moments held node payload) := by
  unfold handleBlock connections
  dsimp only
  by_cases json : isJsonBody payload = true
  · by_cases small : payload.length ≤ kMaxBlockBytes
    · rw [if_pos json, if_neg (Nat.not_lt.mpr small), if_pos ⟨json, small⟩]
      cases parsed : host.parse payload with
      | none =>
          simp only [List.append_nil]
          exact holds
      | some block => exact stable.jsonBlock holds moments held block
    · rw [if_pos json, if_pos (Nat.lt_of_not_le small), if_neg fun both => small both.2,
        List.append_nil]
      exact holds
  · have unstored : storableHeader host node.storage payload = none := by
      have plain : isJsonBody payload = false := Bool.eq_false_iff.mpr json
      simp only [storesBinary, plain, Bool.not_false, Bool.true_and] at rejected
      exact Option.isSome_eq_false_iff.mp rejected |> Option.isNone_iff_eq_none.mp
    rw [if_neg json, if_neg fun both => json both.1, unstored, List.append_nil]
    exact holds

/-- One call keeps a stable statement, unless it stores a binary block body. -/
theorem step (stable : Stable host Inv) (holds : Inv log node) {call : Call} {next : Node}
    (plain : storesBinary host node call = false) (stepped : stepNode host node call = some next) :
    Inv (log ++ connections host node call) next := by
  have unchanged : ∀ {other : Node}, Inv log other → Inv (log ++ []) other := fun holds => by
    rwa [List.append_nil]
  cases call with
  | sendTransaction moment params =>
      cases stepped
      exact unchanged (stable.reframed (rpcSendtransaction_sameChain moment node params) holds)
  | getBlockTemplate moment params =>
      cases stepped
      exact unchanged (stable.reframed (rpcGetblocktemplate_sameChain moment node params) holds)
  | submitBlock moment localPolicy params =>
      cases stepped
      exact stable.submit holds moment localPolicy params
  | adoptPeerChain moments ancestor blocks =>
      cases stepped
      exact stable.adopt holds moments ancestor blocks
  | replayChain moment tip =>
      cases stepped
      exact unchanged (stable.replayed moment tip holds)
  | peerBlock moments held payload =>
      cases stepped
      exact stable.peerBlock holds moments held payload plain
  | peerTx payload =>
      cases stepped
      exact unchanged (stable.reframed (handleTx_sameChain node payload) holds)
  | editFiles wallets namesFile =>
      cases stepped
      exact unchanged (@Stable.reframed _ _ stable _ node _ ⟨rfl, rfl, .refl⟩ holds)
  | restart moment =>
      rw [stepNode] at stepped
      split at stepped
      next final ended =>
        cases stepped
        exact unchanged (stable.restarted moment holds ended)
      · cases stepped

/-- A stable statement about the empty node holds in every run that stores no
binary block body. -/
theorem run (stable : Stable host Inv) {wallets : Wallets} (base : Inv [] (Node.empty wallets))
    {calls : List Call} {log : List (Accepted host)} {node : Node}
    (ran : (nodeMachine host).Runs (fun state call => storesBinary host state call = false)
      (Node.empty wallets) calls log node) : Inv log node :=
  ran.invariant base fun holds plain stepped => stable.step holds plain stepped

end Stable

end PiSecure
