import PiSecure.Theory.Linear

/-! # Spending twice

No outpoint is spent by two transactions of an active chain. Within a single
transaction nothing checks it: the input loop compares with earlier transactions
only, and counts an outpoint as often as the transaction lists it.
-/

namespace PiSecure

variable {host : Host}

/-- The outpoints that the transactions of connected blocks spend, one for every
input. -/
def spentPoints (log : List (Accepted host)) : List Outpoint :=
  log.flatMap fun accepted => accepted.txs.flatMap fun tx => tx.inputs.map TxIn.outpoint

theorem spends_chainEntries (log : List (Accepted host)) :
    (chainEntries log).flatMap Ledger.Entry.spends = spentPoints log := by
  rw [chainEntries, List.flatMap_assoc]
  refine congrArg (fun points => log.flatMap points) (funext fun accepted => ?_)
  rw [blockEntries, List.flatMap_cons, List.flatMap_map, entryOf, accepted.cb_shape.2.2.1]
  rfl

/-- Every transaction of a block counts each of its outpoints once toward its
input total. -/
def CountsOnce (accepted : Accepted host) : Prop :=
  ∀ before tx after sum, accepted.txs = before ++ tx :: after →
    sumInputs accepted.node.storage.utxo (accepted.cb :: before) accepted.height tx.inputs 0 =
      .ok sum →
    sum.toNat = ((tx.inputs.map TxIn.outpoint).dedup.map
      (pointWorth accepted.node.storage.utxo (accepted.cb :: before) accepted.height)).sum

/-- **No double spend, except inside a transaction.** In a run of submissions
the active chain is made of the connected blocks, and each outpoint is spent and
counted at most once on it exactly when no transaction lists an outpoint twice. -/
theorem no_double_spend_iff {wallets : Wallets} {calls : List Call} {log : List (Accepted host)}
    {node : Node}
    (ran : (nodeMachine host).Runs (fun _ call => call.isSubmission = true)
      (Node.empty wallets) calls log node)
    (free : CollisionFree (logTxs log)) :
    node.storage.heightToHash = activeHashes log ∧
      (((spentPoints log).Nodup ∧ ∀ accepted ∈ log, CountsOnce accepted) ↔
        ∀ accepted ∈ log, ∀ tx ∈ accepted.txs, (tx.inputs.map TxIn.outpoint).Nodup) := by
  have linear := Linear.run ran free
  refine ⟨linear.on.active, ?_, ?_⟩
  · rintro ⟨once, _⟩ accepted member tx confirmed
    have block := (List.nodup_flatMap.mp once).1 accepted member
    exact (List.nodup_flatMap.mp block).1 tx confirmed
  · intro distinct
    refine ⟨?_, ?_⟩
    · have ids := linear.booked.distinct
      rw [map_chainBook] at ids
      rw [← spends_chainEntries]
      refine linear.on.coins.spends_nodup ids ?_
      intro entry entryIn
      obtain ⟨accepted, member, inBlock⟩ := List.mem_flatMap.mp entryIn
      rcases List.mem_cons.mp inBlock with rfl | confirmed
      · rw [entryOf, accepted.cb_shape.2.2.1]
        exact List.nodup_nil
      · obtain ⟨tx, listed, rfl⟩ := List.mem_map.mp confirmed
        exact distinct accepted member tx listed
    · intro accepted member before tx after sum split summed
      have confirmed : tx ∈ accepted.txs := by
        rw [split]
        exact List.mem_append_right _ List.mem_cons_self
      rw [sumInputs_total summed, (distinct accepted member tx confirmed).dedup]
      exact Nat.zero_add _

theorem no_double_spend_iff_spending :
    ∃ (calls : List Call) (log : List (Accepted storedHost)) (node : Node),
      (nodeMachine storedHost).Runs (fun _ call => call.isSubmission = true)
        (Node.empty fun _ => none) calls log node ∧
      spentPoints log = [(openingTxid, 1)] ∧
      node.storage.heightToHash = [Digest.zero, openingHash, spendingHash] ∧
      (spentPoints log).Nodup ∧ ∀ accepted ∈ log, CountsOnce accepted := by
  have run := spentNode_run storedHost (fun _ call => call.isSubmission = true) rfl rfl
  have spent : spentPoints (spentLog storedHost) =
      spentContents.flatMap fun seen => seen.2.2.tail.flatMap fun tx =>
        tx.inputs.map TxIn.outpoint := by
    rw [← spentLog_contents, List.flatMap_map]
    rfl
  have hashes : (spentLog storedHost).map Accepted.hash =
      spentContents.map Prod.fst := by
    rw [← spentLog_contents, List.map_map]
    rfl
  have distinct : ∀ seen ∈ spentContents, ∀ tx ∈ seen.2.2.tail,
      (tx.inputs.map TxIn.outpoint).Nodup := by
    decide
  obtain ⟨heights, once⟩ := no_double_spend_iff run spentLog_free
  refine ⟨_, _, _, run, spent.trans (by decide), ?_,
    once.mpr (Accepted.forall_contents spentLog_contents distinct)⟩
  have nonempty := congrArg List.isEmpty hashes
  rw [List.isEmpty_map] at nonempty
  rw [heights, activeHashes, hashes, nonempty]
  rfl

/-- A second block with a transaction that lists an output of the first coinbase
twice; the output pays an address in capital letters, and a peer's block may
spend it without a signature. -/
def doubleSpend : MinedBlock :=
  { secondBlock with
    root := ⟨[0x70, 0x77, 0x09, 0x15, 0x40, 0xdb, 0x80, 0x4c, 0x06, 0x65, 0x75, 0xd0, 0xdb, 0xc7,
      0x55, 0xa1, 0x92, 0x5c, 0x4d, 0x99, 0xae, 0xcf, 0xab, 0x58, 0xd8, 0x79, 0x57, 0x99, 0xe4,
      0x79, 0xcb, 0xe6], rfl⟩
    txs := [spendJson 1 [⟨openingTxid, 1, [], []⟩, ⟨openingTxid, 1, [], []⟩] [⟨3, plainAddress⟩]]
    work := sampleWork 15 ⟨[0x08, 0x9e, 0x1a, 0x7a, 0x96, 0x9a, 0x53, 0xf6, 0xa2, 0x04, 0xbe,
      0xf2, 0xae, 0xbc, 0x09, 0xa5, 0x74, 0x17, 0x2e, 0x87, 0x8b, 0xb9, 0x7f, 0xf9, 0x58, 0xce,
      0x21, 0xcc, 0xbe, 0x6d, 0x77, 0x86], rfl⟩ }

/-- **A double spend.** A run of submissions in which an outpoint is spent twice by
one transaction. -/
theorem outpoint_spent_twice :
    ∃ (host : Host) (calls : List Call) (log : List (Accepted host)) (node : Node),
      (nodeMachine host).Runs (fun _ call => call.isSubmission = true) (Node.empty fun _ => none)
        calls log node ∧ ¬(spentPoints log).Nodup := by
  let host := Host.ofTables [] []
  have spent : spentPoints (connection (Host.ofTables [] []) sampleMoment false
      (openedNode (Host.ofTables [] [])) doubleSpend.json) =
        [(openingTxid, 1), (openingTxid, 1)] := by
    rw [openedNode_eq]
    decide +kernel
  refine ⟨host, _, _, _, (openedNode_run host (fun _ call => call.isSubmission = true) rfl).snoc
    (.submitBlock sampleMoment false doubleSpend.json) rfl rfl, fun once => ?_⟩
  rw [spentPoints, List.flatMap_append] at once
  have last := (List.nodup_append.mp once).2.1
  have second : (spentPoints (connection host sampleMoment false (openedNode host)
      doubleSpend.json)).Nodup := last
  rw [spent] at second
  exact (List.nodup_cons.mp second).1 List.mem_cons_self

end PiSecure
