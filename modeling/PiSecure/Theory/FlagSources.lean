import Mathlib.Logic.Relation
import PiSecure.Theory.NameRegistry
import PiSecure.Theory.Parts
import PiSecure.Theory.Registration

/-! # Which transactions write flags

A single call leaves the flag book alone, or grows it, or empties it first, by the
flag operations of transactions that it reads: the pending ones and the one that
is sent, those of a block, those of a replayed chain and those that are reloaded.
-/

namespace PiSecure

variable {host : Host}

/-! ## Growing a book -/

/-- A flag operation of one of the transactions. -/
def FlagStep (txs : List Tx) (book next : FlagBook) : Prop :=
  ∃ tx ∈ txs, ∃ height, applyFlagTx book tx height = .ok next

/-- A book becomes another by flag operations of the transactions. -/
abbrev Grows (txs : List Tx) : FlagBook → FlagBook → Prop := Relation.ReflTransGen (FlagStep txs)

section Grows

open Relation

variable {txs more : List Tx} {book next : FlagBook}

theorem Grows.mono (sub : txs ⊆ more) (grows : Grows txs book next) : Grows more book next :=
  ReflTransGen.mono (fun _ _ step => step.imp fun _ applied => ⟨sub applied.1, applied.2⟩) _ _ grows

theorem Grows.apply {tx : Tx} {height : Nat} (member : tx ∈ txs)
    (applied : applyFlagTx book tx height = .ok next) : Grows txs book next :=
  .single ⟨tx, member, height, applied⟩

theorem Grows.applyAll {height : Nat} (applied : applyFlagTxs book txs height = .ok next) :
    Grows txs book next := by
  induction txs generalizing book with
  | nil =>
      cases applied
      exact .refl
  | cons tx rest ih =>
      obtain ⟨staged, first, later⟩ := applyFlagTxs_cons.mp applied
      exact (Grows.apply List.mem_cons_self first).trans
        ((ih later).mono (List.subset_cons_self tx rest))

/-- Staging pending transactions only applies those whose flag operation succeeds. -/
theorem grows_stagePending (book : FlagBook) (prior : List Tx) (height : Nat) :
    Grows prior book (stagePending book prior height) := by
  unfold stagePending
  induction prior generalizing book with
  | nil => exact .refl
  | cons tx rest ih =>
      rw [List.foldl_cons]
      split
      next staged applied =>
        exact (Grows.apply List.mem_cons_self applied).trans
          ((ih staged).mono (List.subset_cons_self tx rest))
      · exact (ih book).mono (List.subset_cons_self tx rest)

end Grows

/-! ## What calls read -/

/-- The transactions that parse among documents. -/
def readable (host : Host) (height : Nat) (items : List Json) : List Tx :=
  items.filterMap fun item => (parseUserTx host item height).toOption

/-- The transactions of a stored chain. -/
def chainReads (host : Host) (chain : List FoundBlock) : List Tx :=
  chain.flatMap fun item => readable host item.height ((item.obj.array? "txs").getD [])

/-- The transactions of the mempool file, as a node reads them. -/
def reloadReads (host : Host) (node : Node) : List Tx :=
  (readable host node.nextHeight ((node.mempoolFile.bind Json.asArray?).getD [])).map
    (node.names.resolveOutputNames host)

/-- The transactions that a replay reads: those of the chain, and the mempool file at
its end. -/
def replayReads (host : Host) (base : Node) (chain : List FoundBlock) : List Tx :=
  chainReads host chain ++ reloadReads host (applyChain host base chain).1

/-- The transaction that is sent, when it parses. -/
def sentReads (host : Host) (node : Node) (params : Json) : List Tx :=
  match asObjectParam host params with
  | .object members =>
      (readable host node.nextHeight [.object members]).map (node.names.resolveOutputNames host)
  | _ => []

/-- The node that a replay applies blocks to. -/
def replayBase (node : Node) : Node :=
  { node with flags := [], storage := node.storage.resetActiveChain }

/-- The transactions that a single call reads. -/
def reads (host : Host) (node : Node) : Call → List Tx
  | .sendTransaction moment params => mempoolTxs host moment node ++ sentReads host node params
  | .submitBlock moment localPolicy params =>
      (connection host moment localPolicy node params).flatMap Accepted.txs
  | .replayChain _ tip =>
      replayReads host (replayBase node)
        (chainEndingAt (loadFoundBlocks host node.storage.frames) tip)
  | .restart _ =>
      replayReads host (restartBase node)
        (chooseLongestChain (loadFoundBlocks host node.reopen.storage.frames))
  | _ => []

theorem mem_readable {height : Nat} {items : List Json} {item : Json} {tx : Tx}
    (listed : item ∈ items)
    (parsed : parseUserTx host item height = .ok tx) : tx ∈ readable host height items :=
  List.mem_filterMap.mpr ⟨item, listed, by rw [parsed]; rfl⟩

theorem readable_parsed {height : Nat} {items : List Json} {tx : Tx}
    (member : tx ∈ readable host height items) :
    ∃ item ∈ items, parseUserTx host item height = .ok tx := by
  obtain ⟨item, listed, read⟩ := List.mem_filterMap.mp member
  refine ⟨item, listed, ?_⟩
  cases parsed : parseUserTx host item height with
  | error reason =>
      rw [parsed] at read
      cases read
  | ok other =>
      rw [parsed] at read
      cases read
      rfl

theorem Offers.mem_reads {node : Node} {params : Json} {tx : Tx}
    (offers : Offers host node params tx) :
    tx ∈ sentReads host node params := by
  obtain ⟨⟨members, parsed, object, parses, rfl⟩, _⟩ := offers
  unfold sentReads
  rw [object]
  exact List.mem_map_of_mem (mem_readable List.mem_cons_self parses)

/-! ## Replays -/

section Replay

theorem grows_replayTx (host : Host) (height : Nat) {items : List Json} {item : Json}
    (listed : item ∈ items) (node : Node) :
    Grows (readable host height items) node.flags (replayTx host height node item).1.flags := by
  unfold replayTx
  split
  · exact .refl
  next tx parsed =>
    split
    · exact .refl
    · split
      · exact .refl
      next flags applied => exact Grows.apply (mem_readable listed parsed) applied

theorem grows_replayTxs (host : Host) (height : Nat) (node : Node) (items : List Json) :
    Grows (readable host height items) node.flags (replayTxs host height node items).1.flags := by
  have all : ∀ rest, rest ⊆ items → ∀ node : Node,
      Grows (readable host height items) node.flags (replayTxs host height node rest).1.flags := by
    intro rest
    induction rest with
    | nil => exact fun _ node => .refl
    | cons item rest ih =>
        intro sub node
        have first := grows_replayTx host height (sub List.mem_cons_self) node
        rw [replayTxs]
        split
        next next ended =>
          rw [ended] at first
          exact first.trans (ih (fun _ member => sub (List.mem_cons_of_mem item member)) next)
        next stopped _ => exact first
  exact all items (List.Subset.refl items) node

theorem grows_applyBlock (host : Host) (node : Node) (item : FoundBlock) :
    Grows (chainReads host [item]) node.flags (applyBlock host node item).1.flags := by
  rw [chainReads, List.flatMap_singleton]
  unfold applyBlock
  split
  · exact .refl
  · split
    · exact .refl
    next storage _ =>
      dsimp only
      split
      · exact .refl
      · split
        · exact .refl
        next utxo _ =>
          have replayed := grows_replayTxs host item.height
            (Node.withUtxo { node with storage := storage } utxo) ((item.obj.array? "txs").getD [])
          split
          next next ended =>
            rw [ended] at replayed
            exact replayed
          next stopped _ => exact replayed

theorem grows_applyChain (host : Host) (node : Node) (chain : List FoundBlock) :
    Grows (chainReads host chain) node.flags (applyChain host node chain).1.flags := by
  induction chain generalizing node with
  | nil => exact .refl
  | cons item rest ih =>
      have front : chainReads host [item] ⊆ chainReads host (item :: rest) := by
        simp [chainReads]
      have back : chainReads host rest ⊆ chainReads host (item :: rest) := by
        simp [chainReads]
      have first := (grows_applyBlock host node item).mono front
      rw [applyChain]
      split
      next next ended =>
        rw [ended] at first
        exact first.trans ((ih next).mono back)
      next stopped _ => exact first

theorem grows_reloadEntry (host : Host) (height : Nat) (node : Node) {items : List Json}
    {item : Json}
    (listed : item ∈ items) :
    Grows ((readable host height items).map (node.names.resolveOutputNames host)) node.flags
      (reloadEntry host height node item).1.flags := by
  unfold reloadEntry
  split
  · exact .refl
  next parsed parses =>
    dsimp only
    split
    · exact .refl
    · split
      · exact .refl
      next flags checked =>
        refine .single ⟨_, List.mem_map_of_mem (mem_readable listed parses), height, ?_⟩
        unfold reloadChecks at checked
        split at checked
        · cases checked
        · split at checked
          · cases checked
          · split at checked
            · cases checked
            · exact checked

theorem grows_reloadEntries (host : Host) (height : Nat) {names : NameTable}
    {items rest : List Json} {node : Node}
    (named : node.names = names) (sub : rest ⊆ items) :
    Grows ((readable host height items).map (names.resolveOutputNames host)) node.flags
      (reloadEntries host height node rest).1.flags := by
  induction rest generalizing node with
  | nil => exact .refl
  | cons item rest ih =>
      have first := grows_reloadEntry host height node (sub List.mem_cons_self)
      rw [named] at first
      obtain ⟨flags, mempool, entry⟩ := reloadEntry_eq host height node item
      have kept : (reloadEntry host height node item).1.names = names := by rw [entry, ← named]
      exact first.trans (ih kept fun _ member => sub (List.mem_cons_of_mem item member))

theorem grows_loadMempool (host : Host) (moment : Moment) (node : Node) :
    Grows (reloadReads host node) node.flags (loadMempool host moment node).flags := by
  unfold loadMempool reloadReads
  split
  · exact .refl
  next items listed =>
    rw [listed, Option.getD_some]
    have reloaded := grows_reloadEntries host node.nextHeight (Eq.refl node.names)
      (List.Subset.refl items)
    dsimp only
    split <;> exact reloaded

/-- A replayed chain makes the book of its transactions and of the reloaded ones. -/
theorem grows_replay (moment : Moment) (base : Node) (chain : List FoundBlock) {next : Node}
    (emptied : base.flags = [])
    (ended : next = (applyChain host base chain).1 ∨
      next = loadMempool host moment (applyChain host base chain).1) :
    Grows (replayReads host base chain) [] next.flags := by
  have applied := (grows_applyChain host base chain).mono
    (List.subset_append_left _ (reloadReads host (applyChain host base chain).1))
  rw [emptied] at applied
  rcases ended with rfl | rfl
  · exact applied
  · exact applied.trans ((grows_loadMempool host moment _).mono (List.subset_append_right _ _))

end Replay

/-! ## Single calls -/

section Calls

variable {node next : Node} {moment : Moment} {params : Json}

theorem admitTx_flags (moment : Moment) (node : Node) (flags : FlagBook) (tx : Tx) :
    (admitTx host moment node flags tx).1.flags = flags := by
  unfold admitTx
  dsimp only
  split
  · rfl
  · split <;> rfl

theorem grows_rpcSendtransaction :
    Grows (reads host node (.sendTransaction moment params)) node.flags
      (rpcSendtransaction host moment node params).1.flags := by
  by_cases offered : ∃ tx, Offers host node params tx
  · obtain ⟨tx, offers⟩ := offered
    have staged := (grows_stagePending node.flags (mempoolTxs host moment node)
      node.nextHeight).mono
      (List.subset_append_left _ (sentReads host node params))
    rw [rpcSendtransaction_offers offers]
    split
    · rw [admitTx_flags]
      exact staged
    · split
      · exact .refl
      next names flags passed =>
        rw [admitTx_flags]
        exact staged.trans (Grows.apply (List.mem_append_right _ offers.mem_reads)
          (checkPending_passed passed).flagged)
  · rw [rpcSendtransaction_idle moment (not_exists.mp offered)]

theorem grows_rpcSubmitblock {localPolicy : Bool} :
    Grows (reads host node (.submitBlock moment localPolicy params)) node.flags
      (rpcSubmitblock host moment localPolicy node params).1.flags := by
  rcases submission_cases host moment localPolicy node params with
    ⟨_, names, _, same⟩ | ⟨accepted, passed, _, one, connected⟩
  · rw [same]
  · obtain ⟨_, _, _, _, connects⟩ := connectBlock_eq host moment localPolicy
      { node with names := accepted.names } accepted.checked
    have applied := (checkTxs_ok accepted.passes.txs).1
    rw [(acceptance_of passed).node_eq] at applied
    rw [connected, connects, reads, one, List.flatMap_singleton]
    exact Grows.applyAll applied

theorem grows_rpcReplayChain {tip : Digest} :
    Grows (reads host node (.replayChain moment tip)) node.flags
        (rpcReplayChain host moment node tip).1.flags ∨
      Grows (reads host node (.replayChain moment tip)) []
        (rpcReplayChain host moment node tip).1.flags := by
  unfold rpcReplayChain
  dsimp only
  split
  · exact .inl .refl
  · refine .inr ?_
    split
    next middle ended =>
      refine grows_replay moment (replayBase node) _ rfl (.inr ?_)
      rw [replayBase, ended]
    next stopped _ => exact grows_replay moment (replayBase node) _ rfl (.inl rfl)

theorem grows_restart (restarted : restart host moment node = (next, .done)) :
    Grows (reads host node (.restart moment)) [] next.flags := by
  rcases restart_eq host moment node with ⟨middle, applied, whole⟩ | whole
  · rw [whole] at restarted
    refine grows_replay moment (restartBase node) _ rfl (.inr ?_)
    rw [applied]
    exact (Prod.mk.inj restarted).1.symm
  · rw [whole] at restarted
    exact grows_replay moment (restartBase node) _ rfl (.inl (by rw [restarted]))

theorem rpcGetblocktemplate_flags (moment : Moment) (node : Node) (params : Json) :
    (rpcGetblocktemplate host moment node params).1.flags = node.flags := by
  obtain ⟨challenges, outstanding, handed⟩ := rpcGetblocktemplate_eq host moment node params
  rw [handed]

theorem handleTx_flags (node : Node) (payload : Bytes) :
    (handleTx host node payload).flags = node.flags := by
  rcases handleTx_eq host node payload with kept | kept <;> rw [kept]

/-- A binary block body leaves the flags alone. -/
theorem handleBlock_flags {moments : Nat → Moment} {held : Option (Digest × List Json)}
    {payload : Bytes} (binary : isJsonBody payload = false) :
    (handleBlock host moments held node payload).flags = node.flags := by
  unfold handleBlock
  rw [if_neg (Bool.eq_false_iff.mp binary)]
  split <;> rfl

/-- **Flags come from what is read.** A single call grows the flag book by flag
operations of the transactions that it reads, or makes a new book of them. -/
theorem step_grows {call : Call} (single : call.isSingle)
    (stepped : stepNode host node call = some next) :
    Grows (reads host node call) node.flags next.flags ∨
    Grows (reads host node call) [] next.flags := by
  cases call with
  | sendTransaction moment params =>
      cases stepped
      exact .inl grows_rpcSendtransaction
  | getBlockTemplate moment params =>
      cases stepped
      rw [rpcGetblocktemplate_flags]
      exact .inl .refl
  | submitBlock moment localPolicy params =>
      cases stepped
      exact .inl grows_rpcSubmitblock
  | adoptPeerChain moments ancestor blocks => exact single.elim
  | replayChain moment tip =>
      cases stepped
      exact grows_rpcReplayChain
  | peerBlock moments held payload =>
      cases stepped
      rw [handleBlock_flags single]
      exact .inl .refl
  | peerTx payload =>
      cases stepped
      rw [handleTx_flags]
      exact .inl .refl
  | editFiles wallets namesFile =>
      cases stepped
      exact .inl .refl
  | restart moment =>
      rw [stepNode] at stepped
      split at stepped
      next final ended =>
        cases stepped
        exact .inr (grows_restart ended)
      · cases stepped

end Calls

/-! ## Connected blocks -/

section Connected

/-- The block that a submission connects was checked on the node. -/
theorem connection_node {moment : Moment} {localPolicy : Bool} {node : Node} {params : Json}
    {accepted : Accepted host}
    (connected : accepted ∈ connection host moment localPolicy node params) :
    accepted.node = node := by
  unfold connection at connected
  split at connected
  · cases connected
  next passed =>
    split at connected
    · cases connected
    · rw [List.mem_singleton.mp connected]
      exact (acceptance_of passed).node_eq

/-- A single call that connects a block is its submission. -/
theorem connections_single {node : Node} {call : Call} {accepted : Accepted host}
    (single : call.isSingle) (connected : accepted ∈ connections host node call) :
    accepted.node = node ∧ accepted.txs ⊆ reads host node call := by
  cases call with
  | submitBlock moment localPolicy params =>
      refine ⟨connection_node connected, fun tx member => ?_⟩
      exact List.mem_flatMap.mpr ⟨accepted, connected, member⟩
  | adoptPeerChain moments ancestor blocks => exact single.elim
  | peerBlock moments held payload =>
      have plain : isJsonBody payload = false := single
      unfold connections at connected
      dsimp only at connected
      rw [if_neg fun both => Bool.eq_false_iff.mp plain both.1] at connected
      cases connected
  | _ => cases connected

/-- Every block that a run from a node without names connects was checked with a sound
name table. -/
theorem log_sound {start node : Node} {calls : List Call} {log : List (Accepted host)}
    {allowed : Node → Call → Prop} (unnamed : start.names = [])
    (run : (nodeMachine host).Runs allowed start calls log node) :
    ∀ accepted ∈ log, accepted.node.names.Sound := by
  obtain ⟨pieces, ran⟩ := runs_of_single_calls run
  clear run
  induction ran with
  | nil => exact fun _ impossible => nomatch impossible
  | call before permitted stepped ih =>
      intro accepted member
      rcases List.mem_append.mp member with older | connected
      · exact ih accepted older
      · rw [(connections_single permitted.1 connected).1]
        exact names_sound unnamed before

end Connected

end PiSecure
