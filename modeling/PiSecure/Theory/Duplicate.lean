import PiSecure.Theory.Books

/-! # What an accepted verdict means

A submission is accepted when the block was connected or when it is stored
already. A connected block is the tip and its entries are posted. A stored block
need not be on the active chain.
-/

namespace PiSecure

variable {host : Host}

/-- Whether a hash is on the active chain. -/
def onActiveChain (storage : Storage) (hash : Digest) : Prop :=
  ∃ height, 1 ≤ height ∧ storage.heightToHash[height]? = some hash

/-- The hash that a submission claims for its block. -/
def claimedHash (host : Host) (params : Json) : Option Digest :=
  ((asObjectParam host params).text? "hash").bind fromHex

/-- A block is the tip, and its coinbase and transactions are applied to the
coins of the node before. -/
def BecameTip (accepted : Accepted host) (before after : Node) : Prop :=
  tipOf after.storage = some accepted.hash ∧
    Ledger.postAll before.storage.utxo
      (blockEntries accepted.cb accepted.txs accepted.height) = some after.storage.utxo

/-- An accepted block has the hash that it claims. -/
theorem claimedHash_acceptance {moment : Moment} {localPolicy : Bool} {node : Node} {params : Json}
    {accepted : Accepted host}
    (passed : acceptance host moment localPolicy node params = some accepted) :
    claimedHash host params = some accepted.hash := by
  have given : asObjectParam host params = accepted.block := by
    unfold acceptance at passed
    split at passed
    next member members given =>
      split at passed
      · cases passed
        exact given
      · cases passed
    · cases passed
  obtain ⟨_, _, _, _, claimed, _⟩ := checkWork_ok.mp accepted.passes.work
  rw [claimedHash, given, accepted.fieldsRead.hash]
  exact claimed

/-- The tip of a node is on its active chain. -/
theorem ChainIndex.Shaped.tip_active {storage : Storage} (shaped : storage.chainIndex.Shaped)
    {tip : Digest} (isTip : tipOf storage = some tip) : onActiveChain storage tip := by
  unfold tipOf at isTip
  split at isTip
  next tipped =>
    cases isTip
    rcases shaped with ⟨noTip, _⟩ | ⟨positive, _, listed⟩
    · change storage.heightToHash = [] at noTip
      rw [Storage.hasTip, noTip] at tipped
      cases tipped
    · exact ⟨storage.bestHeight, positive, listed⟩
  · cases isTip

/-- The tip of a store in terms of its index. -/
theorem tipOf_of_index {storage : Storage} {chain : ChainIndex} {frames : List Payload}
    {index : Nat}
    {header : BlockHeader} (shaped : chain.Shaped) (next : header.height = chain.nextHeight)
    (extended : storage.chainIndex = chain.extend frames index header) :
    tipOf storage = some header.hash := by
  have tipped : storage.hasTip = true := by
    rcases extended ▸ shaped.extend frames index next with ⟨_, _, zero⟩ | ⟨positive, length, _⟩
    · have height := shaped.nextHeight_eq
      rw [extended] at zero
      change header.height = 0 at zero
      omega
    · change storage.heightToHash.length = storage.bestHeight + 1 at length
      rw [Storage.hasTip, Bool.not_eq_true', List.isEmpty_eq_false_iff, ← List.length_pos_iff]
      omega
  have best : storage.bestBlockHash = header.hash := congrArg ChainIndex.bestBlockHash extended
  rw [tipOf, if_pos tipped, best]

/-- **Acceptance means the tip, except for stored blocks off the chain.** When a
node accepts a submission, the block became the tip with its entries posted or
was active before, exactly when the hash it claims is not the hash of a stored
block off the active chain. -/
theorem accepted_is_tip_iff {wallets : Wallets} {calls : List Call} {log : List (Accepted host)}
    {node next : Node}
    (ran : (nodeMachine host).Runs (fun state call => Stable.storesBinary host state call = false)
      (Node.empty wallets) calls log node)
    {moment : Moment} {localPolicy : Bool} {params : Json} {hash : Digest} {height : Nat}
    {duplicate : Bool}
    (accepts : rpcSubmitblock host moment localPolicy node params =
      (next, .accepted hash height duplicate))
    (free : CollisionFree (logTxs (log ++ connection host moment localPolicy node params))) :
    ((∃ accepted, acceptance host moment localPolicy node params = some accepted ∧
        accepted.hash = hash ∧ BecameTip accepted node next) ∨ onActiveChain node.storage hash) ↔
      ∀ claimed, claimedHash host params = some claimed →
        (node.storage.blockIndex claimed).isSome → onActiveChain node.storage claimed := by
  have grounded := Grounded.run ran
  have traced := grounded.sourced.traced
  obtain ⟨accepted, passed, rfl⟩ := rpcSubmitblock_accepted accepts
  have claim := claimedHash_acceptance passed
  rw [rpcSubmitblock_of_some passed] at accepts
  cases stored : node.storage.blockIndex accepted.hash with
  | some index =>
      rw [stored] at accepts
      cases accepts
      constructor
      · rintro active claimed claims _
        rw [claim] at claims
        cases claims
        rcases active with ⟨other, same, named, tip, _⟩ | active
        · rw [← named]
          exact traced.shaped.tip_active tip
        · exact active
      · intro condition
        exact .inr (condition accepted.hash claim (stored ▸ rfl))
  | none =>
      rw [stored] at accepts
      cases accepts
      constructor
      · rintro _ claimed claims isStored
        rw [claim] at claims
        cases claims
        rw [stored] at isStored
        cases isStored
      · intro _
        refine .inl ⟨accepted, passed, rfl, ?_, ?_⟩
        · exact tipOf_of_index traced.shaped
            ((traced.above passed).trans traced.shaped.nextHeight_eq.symm)
            (traced.shaped.connect_index passed)
        · have connected : connection host moment localPolicy node params = [accepted] := by
            rw [connection, passed]
            simp only [stored, Option.isSome_none, Bool.false_eq_true, ↓reduceIte]
          rw [connected] at free
          obtain ⟨book, booked⟩ := grounded.booked free.front
          exact (grounded.connect passed (traced.above passed ▸ Nat.lt_succ_self _) free booked).1

theorem accepted_is_tip_iff_opening :
    ∃ (next : Node) (hash : Digest) (height : Nat) (duplicate : Bool),
      rpcSubmitblock (Host.ofTables [] []) sampleMoment false (Node.empty fun _ => none)
        openingBlock.json = (next, .accepted hash height duplicate) ∧
      (((∃ accepted, acceptance (Host.ofTables [] []) sampleMoment false (Node.empty fun _ => none)
          openingBlock.json = some accepted ∧ accepted.hash = hash ∧
            BecameTip accepted (Node.empty fun _ => none) next) ∨
          onActiveChain (Node.empty fun _ => none).storage hash) ↔
        ∀ claimed, claimedHash (Host.ofTables [] []) openingBlock.json = some claimed →
          ((Node.empty fun _ => none).storage.blockIndex claimed).isSome →
            onActiveChain (Node.empty fun _ => none).storage claimed) := by
  let host := Host.ofTables [] []
  have accepts : ∃ next hash height duplicate, rpcSubmitblock host sampleMoment false
      (Node.empty fun _ => none) openingBlock.json = (next, .accepted hash height duplicate) := by
    obtain ⟨accepted, only, _⟩ := openingLog_eq
    rcases submission_cases host sampleMoment false (Node.empty fun _ => none)
      openingBlock.json with
      ⟨none, _⟩ | ⟨block, passed, fresh, _⟩
    · cases only.symm.trans none
    · have done := rpcSubmitblock_of_some passed
      rw [fresh] at done
      exact ⟨_, _, _, _, done⟩
  obtain ⟨next, hash, height, duplicate, accepts⟩ := accepts
  refine ⟨next, hash, height, duplicate, accepts, accepted_is_tip_iff .nil accepts ?_⟩
  rw [List.nil_append]
  exact openingLog_free

/-- Whether the second block is accepted as a duplicate while the first one stays the
tip and the only active block. -/
private def staysBehind (host : Host) (node : Node) : Bool :=
  match rpcSubmitblock host sampleMoment false node secondBlock.json with
  | (next, verdict) =>
      verdict == .accepted secondHash 2 true && tipOf next.storage == some openingHash &&
        !node.storage.heightToHash.contains secondHash

private theorem staysBehind_spec {node : Node} (behind : staysBehind host node = true) :
    ∃ next, rpcSubmitblock host sampleMoment false node secondBlock.json =
        (next, .accepted secondHash 2 true) ∧
      tipOf next.storage = some openingHash ∧ ¬onActiveChain node.storage secondHash := by
  unfold staysBehind at behind
  split at behind
  next next verdict outcome =>
    rw [Bool.and_eq_true, Bool.and_eq_true, beq_iff_eq, beq_iff_eq, Bool.not_eq_true',
      List.contains_eq_mem, decide_eq_false_iff_not] at behind
    obtain ⟨⟨rfl, tip⟩, inactive⟩ := behind
    refine ⟨next, outcome, tip, ?_⟩
    rintro ⟨height, _, listed⟩
    exact inactive (List.mem_of_getElem? listed)

/-- **Accepted off the chain.** After a failed adoption a valid block on top of the tip
is accepted, and the tip stays where it was. -/
theorem accepted_off_chain :
    ∃ (host : Host) (calls : List Call) (log : List (Accepted host)) (node next : Node)
      (moment : Moment) (params : Json) (hash : Digest) (height : Nat) (duplicate : Bool),
      (nodeMachine host).Runs (fun state call => Stable.storesBinary host state call = false)
        (Node.empty fun _ => none) calls log node ∧
      rpcSubmitblock host moment false node params = (next, .accepted hash height duplicate) ∧
      ¬((∃ accepted, acceptance host moment false node params = some accepted ∧
          accepted.hash = hash ∧ BecameTip accepted node next) ∨
        onActiveChain node.storage hash) := by
  have behind : staysBehind (Host.ofTables [] []) (rolledBack (Host.ofTables [] [])) = true := by
    rw [rolledBack, openedNode_eq]
    decide +kernel
  obtain ⟨next, outcome, tip, inactive⟩ := staysBehind_spec behind
  obtain ⟨calls, log, run⟩ := rolledBack_run (Host.ofTables [] [])
    (fun state call => Stable.storesBinary (Host.ofTables [] []) state call = false) rfl rfl
  refine ⟨_, calls, log, _, next, _, _, _, _, _, run, outcome, ?_⟩
  rintro (⟨accepted, _, named, moved, _⟩ | active)
  · rw [tip, named] at moved
    exact absurd moved (by decide)
  · exact inactive active

end PiSecure
