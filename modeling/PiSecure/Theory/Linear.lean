import PiSecure.Theory.ActiveChain

/-! # Runs of submissions

When blocks are only submitted, no transaction is pending and no chain is
abandoned: every connected block is on the active chain, in order, and the coins
and the flag book are made by these blocks alone.
-/

namespace PiSecure

variable {host : Host}

/-- Whether a call submits a block. -/
def Call.isSubmission : Call → Bool
  | .submitBlock _ _ _ => true
  | _ => false

/-- A node whose active chain is made of all connected blocks, without pending
transactions. -/
structure Linear (log : List (Accepted host)) (node : Node) : Prop where
  on : OnChain log node.storage
  booked : Booked log node.storage.bestHeight node.storage.utxo (chainBook log)
  distinct : (log.map Accepted.hash).Nodup
  stored : ∀ accepted ∈ log, accepted.hash ∈ node.storage.hashToIndex
  flags : applyChainFlags [] log = .ok node.flags
  mempool : node.storage.mempool = ∅
  file : node.mempoolFile = none ∨ node.mempoolFile = some (.array [])

namespace Linear

variable {log : List (Accepted host)} {node : Node}

theorem empty (wallets : Wallets) : Linear ([] : List (Accepted host)) (Node.empty wallets) where
  on := OnChain.empty
  booked := Booked.empty _ _
  distinct := List.nodup_nil
  stored _ impossible := nomatch impossible
  flags := rfl
  mempool := rfl
  file := .inl rfl

theorem confirmMempool_empty (txs : List Tx) : confirmMempool ∅ txs = ∅ := by
  induction txs with
  | nil => rfl
  | cons tx rest ih => exact ih

/-- An empty mempool is saved as an empty array. -/
theorem savedMempool_empty (moment : Moment) : savedMempool host moment ∅ = .array [] := by
  have none : moment.listing ∅ = [] := (moment.listing_perm ∅).eq_nil
  rw [savedMempool, none]
  rfl

/-- A connected block extends the chain. -/
theorem connect (linear : Linear log node) (grounded : Grounded log node) {moment : Moment}
    {localPolicy : Bool} {params : Json} {accepted : Accepted host}
    (free : CollisionFree (logTxs (log ++ [accepted])))
    (passed : acceptance host moment localPolicy node params = some accepted)
    (fresh : node.storage.blockIndex accepted.hash = none) :
    Linear (log ++ [accepted]) (connectBlock host moment localPolicy
      { node with names := accepted.names } accepted.checked) := by
  have traced := grounded.sourced.traced
  have above := traced.above passed
  have index := traced.shaped.connect_index passed
  have made := acceptance_of passed
  obtain ⟨posted, booked⟩ := grounded.connect passed (above ▸ Nat.lt_succ_self _) free linear.booked
  have on := linear.on.grow traced.shaped (above.trans traced.shaped.nextHeight_eq.symm)
    (accepted.prev_eq.trans (by rw [made.node_eq, Storage.tip_chainIndex])) index posted
  have hashes := congrArg ChainIndex.hashToIndex index
  obtain ⟨names, challenges, outstanding, namesFile, connected⟩ :=
    connectBlock_eq host moment localPolicy { node with names := accepted.names }
      accepted.checked
  have pool : confirmMempool node.storage.mempool accepted.checked.draft.txs = ∅ := by
    rw [linear.mempool]
    exact confirmMempool_empty _
  refine ⟨on, ?_, ?_, ?_, ?_, ?_, ?_⟩
  · rw [chainBook_append, on.best, List.length_append, List.length_singleton, ← linear.on.best,
      ← above]
    exact booked
  · rw [List.map_append, List.nodup_append]
    refine ⟨linear.distinct, List.nodup_singleton _, ?_⟩
    intro hash older _ isNew same
    obtain ⟨other, listed, rfl⟩ := List.mem_map.mp older
    rw [List.map_singleton, List.mem_singleton] at isNew
    have known := linear.stored other listed
    rw [same, isNew, ← Finmap.lookup_isSome] at known
    change (node.storage.blockIndex accepted.hash).isSome = true at known
    rw [fresh] at known
    cases known
  · intro other member
    change other.hash ∈ (Storage.chainIndex _).hashToIndex
    rw [hashes]
    rcases List.mem_append.mp member with older | isNew
    · exact Finmap.mem_insert.mpr (.inr (linear.stored other older))
    · rw [List.mem_singleton.mp isNew]
      exact Finmap.mem_insert.mpr (.inl rfl)
  · rw [applyChainFlags_append, linear.flags, connected]
    have flagged := (checkTxs_ok accepted.passes.txs).1
    rw [made.node_eq] at flagged
    exact flagged
  · rw [connected]
    exact pool
  · rw [connected]
    dsimp only
    rw [pool, savedMempool_empty]
    split
    · exact linear.file
    · exact .inr rfl

/-- Names do not matter. -/
theorem renamed (linear : Linear log node) (names : NameTable) :
    Linear log { node with names := names } :=
  ⟨linear.on, linear.booked, linear.distinct, linear.stored, linear.flags, linear.mempool,
    linear.file⟩

/-- The rule for runs of submissions: what holds at the start, does not depend
on names, and survives a connected block holds at the end, as far as no two
transaction ids collide. -/
theorem run_rule (Inv : List (Accepted host) → Node → Prop) {wallets : Wallets}
    (base : Inv [] (Node.empty wallets))
    (renamed : ∀ {log node} (names : NameTable), Inv log node →
      Inv log { node with names := names })
    (connected : ∀ {log node moment localPolicy params} {accepted : Accepted host},
      Grounded log node → Linear log node → Inv log node →
      acceptance host moment localPolicy node params = some accepted →
      Linear (log ++ [accepted]) (connectBlock host moment localPolicy
        { node with names := accepted.names } accepted.checked) →
      Inv (log ++ [accepted]) (connectBlock host moment localPolicy
        { node with names := accepted.names } accepted.checked))
    {calls : List Call}
    (ran : (nodeMachine host).Runs (fun _ call => call.isSubmission = true)
      (Node.empty wallets) calls log node) :
    Grounded log node ∧ (CollisionFree (logTxs log) → Linear log node ∧ Inv log node) := by
  induction ran with
  | nil => exact ⟨Grounded.run .nil, fun _ => ⟨empty wallets, base⟩⟩
  | @call calls log state next call before isSubmission stepped ih =>
      obtain ⟨grounded, rest⟩ := ih
      cases call with
      | submitBlock moment localPolicy params =>
          cases stepped
          refine ⟨grounded_stable.submit grounded moment localPolicy params, fun free => ?_⟩
          obtain ⟨linear, holds⟩ := rest free.front
          change CollisionFree (logTxs
            (log ++ connection host moment localPolicy state params)) at free
          change Linear (log ++ connection host moment localPolicy state params) _ ∧
            Inv (log ++ connection host moment localPolicy state params) _
          rcases submission_cases host moment localPolicy state params with
            ⟨none, names, _, same⟩ | ⟨accepted, passed, fresh, one, connects⟩
          · rw [none, same, List.append_nil]
            exact ⟨linear.renamed names, renamed names holds⟩
          · rw [one] at free
            rw [one, connects]
            have grown := linear.connect grounded free passed fresh
            exact ⟨grown, connected grounded linear holds passed grown⟩
      | _ => cases isSubmission

/-- A run of submissions keeps the node on the chain of all connected blocks, as
far as no two transaction ids collide. -/
theorem run {wallets : Wallets} {calls : List Call}
    (ran : (nodeMachine host).Runs (fun _ call => call.isSubmission = true)
      (Node.empty wallets) calls log node) (free : CollisionFree (logTxs log)) : Linear log node :=
  ((run_rule (fun _ _ => True) trivial (fun _ _ => trivial) (fun _ _ _ _ _ => trivial)
    ran).2 free).1

end Linear

end PiSecure
