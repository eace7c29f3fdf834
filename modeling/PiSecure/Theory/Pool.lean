import PiSecure.Theory.FlagSources

/-! # Which transactions wait

A single call changes the mempool by taking entries out and by putting entries in:
those of the transactions that it reads, and the payload of a transaction message.
Every entry is kept under its own id.
-/

namespace PiSecure

variable {host : Host}

/-- One entry is put in under its id, or one is taken out. -/
def PoolStep (added : List Transaction) (pool next : Mempool) : Prop :=
  (∃ entry ∈ added, next = pool.insert entry.hash entry) ∨ ∃ id, next = pool.erase id

/-- A mempool becomes another by such changes. -/
abbrev Shifts (added : List Transaction) : Mempool → Mempool → Prop :=
  Relation.ReflTransGen (PoolStep added)

/-- The entries that a single call can put in. -/
def entriesRead (host : Host) (node : Node) : Call → List Transaction
  | .peerTx payload => [⟨host.sha256 payload, .raw payload⟩]
  | call => (reads host node call).map pendingEntry

/-- A mempool whose entries are kept under their own ids. -/
def Keyed (pool : Mempool) : Prop := ∀ key entry, pool.lookup key = some entry → entry.hash = key

section Shifts

open Relation

variable {added more : List Transaction} {pool next : Mempool}

theorem Shifts.mono (sub : added ⊆ more) (shifts : Shifts added pool next) :
    Shifts more pool next :=
  ReflTransGen.mono (fun _ _ step => step.imp_left
    (.imp fun _ found => ⟨sub found.1, found.2⟩)) _ _ shifts

theorem Shifts.insert {entry : Transaction} (listed : entry ∈ added) :
    Shifts added pool (pool.insert entry.hash entry) :=
  .single (.inl ⟨entry, listed, rfl⟩)

theorem Shifts.erase (id : Digest) : Shifts added pool (pool.erase id) := .single (.inr ⟨id, rfl⟩)

theorem Keyed.empty : Keyed ∅ := fun key entry found => by
  rw [AList.lookup_empty] at found
  cases found

/-- Changes keep every entry under its own id. -/
theorem Keyed.shift (keyed : Keyed pool) (shifts : Shifts added pool next) : Keyed next := by
  induction shifts with
  | refl => exact keyed
  | @tail middle last _ step ih =>
      intro key entry found
      rcases step with ⟨put, _, rfl⟩ | ⟨id, rfl⟩
      · by_cases same : key = put.hash
        · subst same
          rw [AList.lookup_insert] at found
          rw [← Option.some.inj found]
        · rw [AList.lookup_insert_ne same] at found
          exact ih key entry found
      · by_cases same : key = id
        · rw [same, AList.lookup_erase] at found
          cases found
        · rw [AList.lookup_erase_ne same] at found
          exact ih key entry found

end Shifts

/-! ## Calls -/

section Calls

variable {node next : Node} {moment : Moment} {params : Json}

theorem shifts_admitTx {added : List Transaction} {flags : FlagBook} {tx : Tx}
    (listed : pendingEntry tx ∈ added) :
    Shifts added node.storage.mempool (admitTx host moment node flags tx).1.storage.mempool := by
  have put : Shifts added node.storage.mempool
      (node.storage.mempool.insert tx.txid (pendingEntry tx)) := Shifts.insert listed
  unfold admitTx
  dsimp only
  split
  · exact put
  · split
    · exact put.trans (Shifts.erase tx.txid)
    · exact put

theorem shifts_rpcSendtransaction :
    Shifts (entriesRead host node (.sendTransaction moment params)) node.storage.mempool
      (rpcSendtransaction host moment node params).1.storage.mempool := by
  by_cases offered : ∃ tx, Offers host node params tx
  · obtain ⟨tx, offers⟩ := offered
    have listed : pendingEntry tx ∈ entriesRead host node (.sendTransaction moment params) :=
      List.mem_map_of_mem (List.mem_append_right _ offers.mem_reads)
    rw [rpcSendtransaction_offers offers]
    split
    · exact shifts_admitTx listed
    · split
      · exact .refl
      next names flags _ =>
        exact @shifts_admitTx host { node with names := names } moment _ flags tx listed
  · rw [rpcSendtransaction_idle moment (not_exists.mp offered)]

theorem shifts_confirmMempool {added : List Transaction} (pool : Mempool) (txs : List Tx) :
    Shifts added pool (confirmMempool pool txs) := by
  induction txs generalizing pool with
  | nil => exact .refl
  | cons tx rest ih => exact (Shifts.erase tx.txid).trans (ih (pool.erase tx.txid))

theorem shifts_rpcSubmitblock {added : List Transaction} {localPolicy : Bool} :
    Shifts added node.storage.mempool
      (rpcSubmitblock host moment localPolicy node params).1.storage.mempool := by
  rcases submission_cases host moment localPolicy node params with
    ⟨_, names, _, same⟩ | ⟨accepted, _, _, _, connected⟩
  · rw [same]
  · obtain ⟨_, _, _, _, connects⟩ := connectBlock_eq host moment localPolicy
      { node with names := accepted.names } accepted.checked
    rw [connected, connects]
    exact shifts_confirmMempool _ _

theorem applyBlock_mempool (node : Node) (item : FoundBlock) :
    (applyBlock host node item).1.storage.mempool = node.storage.mempool := by
  rcases applyBlock_eq host node item with ⟨_, _, stopped⟩ | ⟨_, storage, _, indexed, _, _, _, done⟩
  · rw [stopped]
  · rw [done]
    unfold Storage.indexExistingBlock at indexed
    split at indexed
    · cases indexed
    · cases indexed
      rfl

theorem applyChain_mempool (node : Node) (chain : List FoundBlock) :
    (applyChain host node chain).1.storage.mempool = node.storage.mempool := by
  induction chain generalizing node with
  | nil => rfl
  | cons item rest ih =>
      have first := @applyBlock_mempool host node item
      rw [applyChain]
      split
      next next ended =>
        rw [ended] at first
        rw [ih next, first]
      next stopped _ => exact first

theorem shifts_reloadEntries (host : Host) (height : Nat) {names : NameTable}
    {items rest : List Json} {node : Node}
    (named : node.names = names) (sub : rest ⊆ items) :
    Shifts (((readable host height items).map (names.resolveOutputNames host)).map pendingEntry)
      node.storage.mempool (reloadEntries host height node rest).1.storage.mempool := by
  induction rest generalizing node with
  | nil => exact .refl
  | cons item rest ih =>
      have first : Shifts (((readable host height items).map (names.resolveOutputNames host)).map
          pendingEntry) node.storage.mempool (reloadEntry host height node
          item).1.storage.mempool := by
        unfold reloadEntry
        split
        · exact .refl
        next parsed parses =>
          dsimp only
          split
          · exact .refl
          · split
            · exact .refl
            · rw [named]
              exact Shifts.insert (List.mem_map_of_mem (List.mem_map_of_mem
                (mem_readable (sub List.mem_cons_self) parses)))
      obtain ⟨flags, mempool, entry⟩ := reloadEntry_eq host height node item
      have kept : (reloadEntry host height node item).1.names = names := by rw [entry, ← named]
      exact first.trans (ih kept fun _ member => sub (List.mem_cons_of_mem item member))

theorem shifts_loadMempool (moment : Moment) (node : Node) :
    Shifts ((reloadReads host node).map pendingEntry) node.storage.mempool
      (loadMempool host moment node).storage.mempool := by
  unfold loadMempool reloadReads
  split
  · exact .refl
  next items listed =>
    rw [listed, Option.getD_some]
    have reloaded := shifts_reloadEntries host node.nextHeight
      (Eq.refl node.names) (List.Subset.refl items)
    dsimp only
    split <;> exact reloaded

/-- A replayed chain leaves the mempool alone, but for the reload at its end. -/
theorem shifts_replay (moment : Moment) (base : Node) (chain : List FoundBlock) {next : Node}
    (ended : next = (applyChain host base chain).1 ∨
      next = loadMempool host moment (applyChain host base chain).1) :
    Shifts ((replayReads host base chain).map pendingEntry) base.storage.mempool
      next.storage.mempool := by
  rcases ended with rfl | rfl
  · rw [applyChain_mempool]
  · have reloaded := @shifts_loadMempool host moment (applyChain host base chain).1
    rw [applyChain_mempool] at reloaded
    refine reloaded.mono (List.map_subset _ (List.subset_append_right _ _))

theorem shifts_rpcReplayChain {tip : Digest} :
    Shifts (entriesRead host node (.replayChain moment tip)) node.storage.mempool
        (rpcReplayChain host moment node tip).1.storage.mempool ∨
      Shifts (entriesRead host node (.replayChain moment tip)) ∅
        (rpcReplayChain host moment node tip).1.storage.mempool := by
  unfold rpcReplayChain
  dsimp only
  split
  · exact .inl .refl
  · refine .inr ?_
    split
    next middle ended =>
      refine shifts_replay moment (replayBase node) _ (.inr ?_)
      rw [replayBase, ended]
    next stopped _ => exact shifts_replay moment (replayBase node) _ (.inl rfl)

theorem shifts_restart (restarted : restart host moment node = (next, .done)) :
    Shifts (entriesRead host node (.restart moment)) ∅ next.storage.mempool := by
  rcases restart_eq host moment node with ⟨middle, applied, whole⟩ | whole
  · rw [whole] at restarted
    refine shifts_replay moment (restartBase node) _ (.inr ?_)
    rw [applied]
    exact (Prod.mk.inj restarted).1.symm
  · rw [whole] at restarted
    exact shifts_replay moment (restartBase node) _ (.inl (by rw [restarted]))

theorem rpcGetblocktemplate_mempool (moment : Moment) (node : Node) (params : Json) :
    (rpcGetblocktemplate host moment node params).1.storage.mempool = node.storage.mempool := by
  obtain ⟨challenges, outstanding, handed⟩ := rpcGetblocktemplate_eq host moment node params
  rw [handed]

theorem shifts_handleTx {payload : Bytes} :
    Shifts (entriesRead host node (.peerTx payload)) node.storage.mempool
      (handleTx host node payload).storage.mempool := by
  rcases handleTx_eq host node payload with kept | kept
  · rw [kept]
  · rw [kept]
    exact @Shifts.insert _ _ ⟨host.sha256 payload, .raw payload⟩ List.mem_cons_self

/-- **Entries come from what is read.** A single call changes the mempool by the entries
of the transactions that it reads; a replay and a restart start with an empty one. -/
theorem step_shifts {call : Call} (single : call.isSingle)
    (stepped : stepNode host node call = some next) :
    Shifts (entriesRead host node call) node.storage.mempool next.storage.mempool ∨
      Shifts (entriesRead host node call) ∅ next.storage.mempool := by
  cases call with
  | sendTransaction moment params =>
      cases stepped
      exact .inl shifts_rpcSendtransaction
  | getBlockTemplate moment params =>
      cases stepped
      rw [rpcGetblocktemplate_mempool]
      exact .inl .refl
  | submitBlock moment localPolicy params =>
      cases stepped
      exact .inl shifts_rpcSubmitblock
  | adoptPeerChain moments ancestor blocks => exact single.elim
  | replayChain moment tip =>
      cases stepped
      exact shifts_rpcReplayChain
  | peerBlock moments held payload =>
      have plain : isJsonBody payload = false := single
      cases stepped
      unfold handleBlock
      rw [if_neg (Bool.eq_false_iff.mp plain)]
      split <;> exact .inl .refl
  | peerTx payload =>
      cases stepped
      exact .inl shifts_handleTx
  | editFiles wallets namesFile =>
      cases stepped
      exact .inl .refl
  | restart moment =>
      rw [stepNode] at stepped
      split at stepped
      next final ended =>
        cases stepped
        exact .inr (shifts_restart ended)
      · cases stepped

/-- Every entry of a reached node is kept under its own id. -/
theorem mempool_keyed {allowed : Node → Call → Prop} {start final : Node} {calls : List Call}
    {log : List (Accepted host)} (keyed : Keyed start.storage.mempool)
    (run : (nodeMachine host).Runs allowed start calls log final) :
    Keyed final.storage.mempool := by
  obtain ⟨pieces, ran⟩ := runs_of_single_calls run
  refine @Machine.Runs.invariant _ _ _ _ _ _ (fun _ node => Keyed node.storage.mempool) keyed ?_ _ _
    _ ran
  intro log state call next holds permitted stepped
  rcases step_shifts permitted.1 stepped with shifts | shifts
  · exact holds.shift shifts
  · exact Keyed.empty.shift shifts

end Calls

end PiSecure
