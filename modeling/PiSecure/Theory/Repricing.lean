import PiSecure.Theory.Bounty
import PiSecure.Theory.Ordering
import PiSecure.Theory.Pool

/-! # What a pending payment is worth

An entry of the mempool is read again for every block that it is offered for, and
its integers are then units of the height of that block.
-/

namespace PiSecure

variable {host : Host}

/-! ## Reading an entry again -/

section Reread

variable {height later : Nat} {tx read : Tx}

/-- The fee of a transaction that is read again still reaches the minimum. -/
theorem fee_of_reread (parses : parseUserTx host (txToJson tx) later = .ok read) :
    minFeeForHeight later ≤ tx.fee := by
  obtain ⟨_, _, _, feeRead⟩ := txToJson_base tx
  obtain ⟨_, _, fee, _, found, paid, _, _⟩ := parseUserTx_parts parses
  rw [feeRead] at found
  obtain rfl := Option.some.inj found
  have same : fee = tx.fee := by
    unfold storedFromJsonAmount at paid
    dsimp only at paid
    split at paid
    · cases paid
    · split at paid
      · cases paid
      · exact (Except.ok.inj paid).symm
  exact same ▸ (storedFromJsonAmount_ok paid).2 rfl

/-- A parsed transaction is one at a later height too when its fee is high enough there. -/
theorem Tx.Parsed.atHeight (parsed : tx.Parsed host height)
    (enough : minFeeForHeight later ≤ tx.fee) :
    tx.Parsed host later :=
  { parsed with fee := ⟨parsed.fee.1, enough⟩ }

/-- The entry of a transaction is offered as that transaction, when it is offered. -/
theorem parsePending_pendingEntry {tx offered : Tx} (parsed : tx.Parsed host height) :
    parsePending host later (pendingEntry tx) = some offered ↔
      offered = tx ∧ minFeeForHeight later ≤ tx.fee ∧ (txToJson tx).dumpSize ≤ kMaxTxJsonBytes := by
  have unfolded : parsePending host later (pendingEntry tx) =
      (parseUserTx host (txToJson tx) later).toOption.map
        fun read => { read with txid := tx.txid } := by
    unfold parsePending
    rw [show (pendingEntry tx).data.parse host = some (txToJson tx) from rfl]
    dsimp only
    split
    next failed => rw [failed]; rfl
    next parses => rw [parses]; rfl
  rw [unfolded]
  constructor
  · intro pending
    cases parses : parseUserTx host (txToJson tx) later with
    | error reason =>
        rw [parses] at pending
        cases pending
    | ok read =>
        have enough := fee_of_reread parses
        have same := parseUserTx_txToJson_eq (parsed.atHeight enough) parses
        rw [parses, same] at pending
        exact ⟨(Option.some.inj pending).symm, enough, (parseUserTx_ok parses).2.2⟩
  · rintro ⟨rfl, enough, small⟩
    rw [parseUserTx_txToJson_of_small (parsed.atHeight enough) small]
    rfl

end Reread

/-! ## The order of the offered transactions -/

/-- Every transaction has its place in the order. -/
theorem mem_orderTxs {txs : List Tx} {tx : Tx} : tx ∈ orderTxs txs ↔ tx ∈ txs :=
  (orderTxs_perm txs).mem_iff

/-- A walk of the mempool can start with any of its entries. -/
theorem exists_listing_front (pool : Mempool) {entry : Transaction}
    (listed : entry ∈ pool.entries.map Sigma.snd) :
    ∃ moment : Moment, (moment.listing pool).head? = some entry := by
  classical
  refine ⟨⟨0, none, fun other =>
    if entry ∈ other.entries.map Sigma.snd then entry :: (other.entries.map Sigma.snd).erase entry
    else other.entries.map Sigma.snd, fun other => ?_⟩, ?_⟩
  · split
    next here => exact (List.perm_cons_erase here).symm
    · exact List.Perm.refl _
  · dsimp only
    rw [if_pos listed, List.head?_cons]

theorem mem_values_iff {pool : Mempool} {entry : Transaction} :
    entry ∈ pool.entries.map Sigma.snd ↔ ∃ key, pool.lookup key = some entry := by
  constructor
  · intro member
    obtain ⟨⟨key, stored⟩, listed, rfl⟩ := List.mem_map.mp member
    exact ⟨key, AList.mem_lookup_iff.mpr listed⟩
  · rintro ⟨key, found⟩
    exact List.mem_map_of_mem (AList.mem_lookup_iff.mp found)

/-- What is offered under an id comes from the entry that is kept under it. -/
theorem mem_mempoolTxs {moment : Moment} {node : Node} {offered : Tx}
    (keyed : Keyed node.storage.mempool) (member : offered ∈ mempoolTxs host moment node) :
    ∃ entry, node.storage.mempool.lookup offered.txid = some entry ∧
      parsePending host node.nextHeight entry = some offered := by
  obtain ⟨entry, taken, pending⟩ := List.mem_filterMap.mp (mem_orderTxs.mp member)
  have listed := (moment.listing_perm node.storage.mempool).mem_iff.mp (List.mem_of_mem_take taken)
  obtain ⟨key, found⟩ := mem_values_iff.mp listed
  have named : offered.txid = entry.hash := by
    unfold parsePending at pending
    split at pending
    · cases pending
    · split at pending
      · cases pending
      · rw [← Option.some.inj pending]
  refine ⟨entry, ?_, pending⟩
  rw [named, keyed key entry found, found]

/-- The entry of a transaction is offered in some walk when the next block can read it. -/
theorem exists_offered {node : Node} {tx : Tx}
    (waits : node.storage.mempool.lookup tx.txid = some (pendingEntry tx))
    (pending : parsePending host node.nextHeight (pendingEntry tx) = some tx) :
    ∃ moment : Moment, tx ∈ mempoolTxs host moment node := by
  obtain ⟨moment, front⟩ :=
    exists_listing_front node.storage.mempool (mem_values_iff.mpr ⟨_, waits⟩)
  obtain ⟨rest, listing⟩ := List.head?_eq_some_iff.mp front
  refine ⟨moment, mem_orderTxs.mpr (List.mem_filterMap.mpr ⟨pendingEntry tx, ?_, pending⟩)⟩
  rw [mempoolTransactions, listing, List.take_succ_cons]
  exact List.mem_cons_self

/-! ## Worth -/

/-- The amounts of a transaction, as a block of a height counts them, are worth what those
of another one were at the height at which it was admitted. -/
structure KeepsWorth (tx : Tx) (admitted : Nat) (offered : Tx) (height : Nat) : Prop where
  fee : (storedToPi offered.fee height).map UInt64.toNat = some (piOf tx.fee admitted)
  outputs : offered.outputs.map (fun output => (storedToPi output.value height).map UInt64.toNat) =
    tx.outputs.map fun output => some (piOf output.value admitted)

/-- From the activation height on the same integers are worth less. -/
theorem KeepsWorth.absurd {tx offered : Tx} {admitted height : Nat}
    (keeps : KeepsWorth tx admitted offered height) (sameFee : offered.fee = tx.fee)
    (positive : tx.fee ≠ 0) (early : admitted < piActivationHeight)
    (late : piActivationHeight ≤ height) : False := by
  have worth := keeps.fee
  rw [sameFee, storedToPi, if_pos late, Option.map_some, piOf, piPerUnit, if_pos early] at worth
  have equal : tx.fee.toNat = tx.fee.toNat * 1000 := Option.some.inj worth
  exact positive (UInt64.toNat_inj.mp (show tx.fee.toNat = 0 by omega))

theorem minFee_late {height : Nat} (late : piActivationHeight ≤ height) :
    minFeeForHeight height = minFeePi := if_pos late

/-- A sent transaction is parsed for the next height of the node that took it. -/
theorem Offers.parsed {node : Node} {params : Json} {tx : Tx} (offers : Offers host node params tx)
    (sound : node.names.Sound) : tx.Parsed host node.nextHeight ∧ tx.Sized := by
  obtain ⟨⟨members, parsed, _, parses, rfl⟩, _⟩ := offers
  exact ⟨(parseUserTx_ok parses).1.resolve sound, resolveOutputNames_sized sound parses⟩

/-- **The worth of a pending payment.** A transaction is sent below the activation height
and still waits at or above it. Every transaction that is then offered under its id keeps
its worth exactly when none is offered, because its fee is below the new minimum or its
document too large; and no block from that height on accepts it at its worth. -/
theorem pending_worth_iff {start node final : Node} {calls later : List Call}
    {log events : List (Accepted host)} {moment : Moment} {params : Json} {tx : Tx}
    (unnamed : start.names = []) (keyed : Keyed start.storage.mempool)
    (before : (nodeMachine host).Runs (fun _ _ => True) start calls log node)
    (offers : Offers host node params tx) (early : node.nextHeight < piActivationHeight)
    (after : (nodeMachine host).Runs (fun _ _ => True)
      (rpcSendtransaction host moment node params).1 later events final)
    (waits : final.storage.mempool.lookup tx.txid = some (pendingEntry tx))
    (late : piActivationHeight ≤ final.nextHeight) :
    ((∀ moment : Moment, ∀ offered ∈ mempoolTxs host moment final, offered.txid = tx.txid →
        KeepsWorth tx node.nextHeight offered final.nextHeight) ↔
      tx.fee < minFeePi ∨ kMaxTxJsonBytes < (txToJson tx).dumpSize) ∧
    ∀ {more : List Call} {rest : List (Accepted host)} {last : Node},
      (nodeMachine host).Runs (fun _ _ => True) final more rest last → ∀ accepted ∈ rest,
        piActivationHeight ≤ accepted.height → ∀ confirmed ∈ accepted.txs,
          confirmed.txid = tx.txid → CollisionFree [tx, confirmed] →
            minFeePi ≤ tx.fee ∧ ¬KeepsWorth tx node.nextHeight confirmed accepted.height := by
  have sent : (nodeMachine host).step node (.sendTransaction moment params) =
      some (rpcSendtransaction host moment node params).1 := rfl
  have reached := (before.snoc (.sendTransaction moment params) trivial sent).trans after
  obtain ⟨parsed, sized⟩ := offers.parsed (names_sound unnamed before)
  have pending := fun {offered : Tx} =>
    @parsePending_pendingEntry host _ final.nextHeight tx offered parsed
  rw [minFee_late late] at pending
  refine ⟨⟨fun keeps => ?_, fun dropped moment offered member named => ?_⟩, ?_⟩
  · by_contra offerable
    obtain ⟨enough, small⟩ := not_or.mp offerable
    have readable := pending.mpr ⟨rfl, UInt64.not_lt.mp enough, Nat.not_lt.mp small⟩
    obtain ⟨moment, offered⟩ := exists_offered waits readable
    exact (keeps moment tx offered rfl).absurd rfl parsed.fee.1 early late
  · obtain ⟨entry, found, readable⟩ := mem_mempoolTxs (mempool_keyed keyed reached) member
    rw [named, waits] at found
    rw [← Option.some.inj found] at readable
    obtain ⟨_, enough, small⟩ := pending.mp readable
    exact (dropped.elim (UInt64.not_lt.mpr enough) (Nat.not_lt.mpr small)).elim
  · intro more rest last run accepted member high confirmed listed named free
    have sound := log_sound unnamed (reached.trans run) accepted (List.mem_append_right _ member)
    have same := (txs_sized sound confirmed listed).sameContent sized
      (free confirmed (by simp) tx (by simp) named)
    have paid := (accepted.txs_parsed sound confirmed listed).fee.2
    rw [minFee_late high, same.fee] at paid
    exact ⟨paid, fun keeps => keeps.absurd same.fee parsed.fee.1 early high⟩

/-! ## A payment of 0.005 314ST -/

/-- The document that is sent below the activation height. -/
def paymentDoc : Json := paymentJson (signedSpend coinId 2 paymentSignature samplePublicKey)

/-- The transaction in it. -/
def paymentTx : Tx where
  fee := 314
  inputs := [signedSpend coinId 2 paymentSignature samplePublicKey]
  outputs := [⟨5, plainAddress⟩, ⟨681, sampleAddress⟩]
  txid :=
    ⟨[0xea, 0x36, 0xe0, 0x0f, 0x4f, 0x24, 0x83, 0x61, 0xbb, 0xe6, 0x84, 0x7c, 0x7e, 0x88, 0x8c,
      0x7d, 0xdd, 0x3a, 0x16, 0xf2, 0x1c, 0x2f, 0x1e, 0xfb, 0xf5, 0xbf, 0x0b, 0x68, 0x86, 0xb2,
      0x88, 0xb4], rfl⟩

theorem payment_offers : Offers lateHost lateNode paymentDoc paymentTx :=
  ⟨⟨_, paymentTx, rfl, by decide +kernel, by decide +kernel⟩, by decide +kernel⟩

/-- A payment that is admitted only changes the mempool. -/
theorem admitTx_payment (host : Host) (moment : Moment) (node : Node) {tx : Tx}
    (plain : tx.reg = false) :
    admitTx host moment node node.flags tx = (node.withMempool
      (node.storage.mempool.insert tx.txid (pendingEntry tx)) (fileWith host moment node tx),
      .ok tx.txid) := by
  unfold admitTx
  rw [if_pos (by simp [plain])]
  rfl

/-- The payment is admitted. -/
theorem payment_admitted : ∃ file, rpcSendtransaction lateHost sampleMoment lateNode paymentDoc =
    (lateNode.withMempool (lateNode.storage.mempool.insert paymentTx.txid (pendingEntry paymentTx))
      file,
      .ok paymentTx.txid) := by
  have passed : checkPending lateHost lateNode lateNode.nextHeight
      (mempoolTxs lateHost sampleMoment lateNode) (stagedFlags lateHost sampleMoment lateNode)
      paymentTx = (lateNode.names, .ok lateNode.flags) := by
    decide +kernel
  have paying : ¬paymentTx.inputs.isEmpty = true := by decide
  refine ⟨fileWith lateHost sampleMoment lateNode paymentTx, ?_⟩
  rw [rpcSendtransaction_offers payment_offers, if_neg paying, passed]
  exact admitTx_payment lateHost sampleMoment lateNode rfl

/-- The mempool does not matter for the height that a block leads to. -/
theorem connectBlock_nextHeight (host : Host) (moment : Moment) (localPolicy : Bool) (node : Node)
    (pool : Mempool) (file : Option Json) (names : NameTable) (checked : Checked) :
    (connectBlock host moment localPolicy { node.withMempool pool file with names := names }
        checked).nextHeight =
      (connectBlock host moment localPolicy node checked).nextHeight := by
  obtain ⟨_, _, _, _, left⟩ := connectBlock_eq host moment localPolicy
    { node.withMempool pool file with names := names } checked
  obtain ⟨_, _, _, _, right⟩ := connectBlock_eq host moment localPolicy node checked
  rw [left, right]
  rfl

/-- The payment waits while the last block with old units is connected. -/
theorem payment_waits : ∃ (events : List (Accepted lateHost)) (final : Node),
    (nodeMachine lateHost).Runs (fun _ _ => True)
      (rpcSendtransaction lateHost sampleMoment lateNode paymentDoc).1 [lateCall creationBlock]
      events
      final ∧
    final.storage.mempool.lookup paymentTx.txid = some (pendingEntry paymentTx) ∧
    final.nextHeight = 3000 := by
  obtain ⟨file, admitted⟩ := payment_admitted
  rw [admitted]
  generalize poolIs : lateNode.storage.mempool.insert paymentTx.txid (pendingEntry paymentTx) = pool
  have passed := (checkBlock_withMempool lateHost sampleMoment false lateNode pool file
    creationBlock.json).trans creation_passed
  have fresh : (lateNode.withMempool pool file).storage.blockIndex creationChecked.digest =
      none := by
    change lateNode.storage.blockIndex creationChecked.digest = none
    decide +kernel
  obtain ⟨accepted, one, _, _, next⟩ := connection_of_passed (by decide +kernel) passed fresh
  obtain ⟨names, challenges, outstanding, namesFile, connected⟩ :=
    connectBlock_eq lateHost sampleMoment
    false { lateNode.withMempool pool file with names := [] } creationChecked
  refine ⟨_, _, .call .nil trivial rfl, ?_, ?_⟩
  · rw [next, connected]
    change (pool.erase creationTx.txid).lookup paymentTx.txid = _
    rw [AList.lookup_erase_ne (by decide), ← poolIs, AList.lookup_insert]
  · rw [next, connectBlock_nextHeight]
    change createdNode.nextHeight = _
    decide +kernel

theorem pending_worth_iff_payment : ∃ final : Node, final.nextHeight = 3000 ∧
    ((∀ moment : Moment, ∀ offered ∈ mempoolTxs lateHost moment final,
      offered.txid = paymentTx.txid →
        KeepsWorth paymentTx 2999 offered final.nextHeight) ↔
      paymentTx.fee < minFeePi ∨ kMaxTxJsonBytes < (txToJson paymentTx).dumpSize) := by
  obtain ⟨events, final, after, waits, reached⟩ := payment_waits
  have here : lateNode.nextHeight = 2999 := by decide +kernel
  refine ⟨final, reached, ?_⟩
  rw [← here]
  exact (pending_worth_iff rfl Keyed.empty .nil payment_offers (by rw [here]; decide) after waits
    (Nat.le_of_eq reached.symm)).1

/-- **A payment that loses its worth.** An output of 5000 pi is admitted below the
activation height and is offered at it as one of five pi. -/
theorem payment_devalued :
    ∃ (host : Host) (start final : Node) (moment later : Moment) (params : Json) (tx : Tx)
      (calls : List Call) (events : List (Accepted host)),
      start.names = [] ∧ Keyed start.storage.mempool ∧ start.nextHeight < piActivationHeight ∧
      Offers host start params tx ∧ (rpcSendtransaction host moment start params).2 = .ok tx.txid ∧
      (nodeMachine host).Runs (fun _ _ => True) (rpcSendtransaction host moment start params).1
      calls
        events final ∧
      final.storage.mempool.lookup tx.txid = some (pendingEntry tx) ∧
      piActivationHeight ≤ final.nextHeight ∧
      ∃ offered ∈ mempoolTxs host later final, offered.txid = tx.txid ∧
        ∃ output ∈ offered.outputs, output ∈ tx.outputs ∧
          piOf output.value start.nextHeight = 5000 ∧
          storedToPi output.value final.nextHeight = some 5 := by
  obtain ⟨events, final, after, waits, reached⟩ := payment_waits
  obtain ⟨file, admitted⟩ := payment_admitted
  have here : lateNode.nextHeight = 2999 := by decide +kernel
  have readable : parsePending lateHost final.nextHeight (pendingEntry paymentTx) =
      some paymentTx := by
    rw [reached]
    decide +kernel
  obtain ⟨later, offered⟩ := exists_offered waits readable
  refine ⟨lateHost, lateNode, final, sampleMoment, later, paymentDoc, paymentTx, _, events, rfl,
    Keyed.empty, by rw [here]; decide, payment_offers, by rw [admitted], after, waits,
    Nat.le_of_eq reached.symm, paymentTx, offered, rfl, ⟨5, plainAddress⟩, List.mem_cons_self,
    List.mem_cons_self, ?_, ?_⟩
  · rw [here]
    decide
  · rw [reached]
    decide

end PiSecure
