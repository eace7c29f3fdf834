import Mathlib.Algebra.Ring.Nat
import Mathlib.Algebra.BigOperators.Ring.List
import PiSecure.Theory.Balance
import PiSecure.Theory.Escrow
import PiSecure.Theory.Linear

/-! # The supply is bounded

Every block adds at most 218000 pi to what the coins and the escrow of a chain
are worth together: the coinbase pays the subsidy and shares of the fees, and
every transaction gives up its fee.
-/

namespace PiSecure

variable {host : Host}

/-- The worth of a coin in pi. -/
def piWorth (rec : UtxoRecord) : Nat := piOf rec.value rec.height

/-- The worth of all coins in pi. -/
def supply (utxo : UtxoSet) : Nat := Ledger.weigh piWorth utxo

/-- The ids that the transactions of connected blocks have in flags. -/
def userIds (log : List (Accepted host)) : List Text :=
  log.flatMap fun accepted => accepted.txs.map fun tx => toHex tx.txid

/-- The height of the block that confirmed a transaction; zero for none. -/
def confirmedAt (log : List (Accepted host)) (id : Text) : Nat :=
  ((log.find? fun accepted => accepted.txs.any fun tx => toHex tx.txid == id).map
    Accepted.height).getD 0

/-- The sums that validation computes for a block, without wrapping: the
amounts paid to each role, and what each transaction needs. -/
structure SumsFit (accepted : Accepted host) : Prop where
  paid : ∀ role, roleTotal role accepted.checked.draft.cbOuts < 2 ^ 64
  needs : ∀ tx ∈ accepted.txs,
    (tx.outputs.map fun output => output.value.toNat).sum + tx.fee.toNat + tx.escrowLock.toNat <
      2 ^ 64

/-! ## Amounts -/

section Amounts

/-- What an output counts for at a height is its worth in pi. -/
theorem worthAt_pi {height born : Nat} {value worth : UInt64} {owner : Text} (early : born ≤ height)
    (counted : worthAt height ⟨value, owner, born⟩ = some worth) :
    piOf worth height = piOf value born := by
  unfold worthAt at counted
  dsimp only at counted
  split at counted
  next moved =>
    split at counted
    · cases counted
    next small =>
      cases counted
      have limit : (uint64Max / piPerOldUnit).toNat = 18446744073709551 := rfl
      rw [gt_iff_lt, UInt64.lt_iff_toNat_lt, limit] at small
      have product : (value * piPerOldUnit).toNat = value.toNat * 1000 := by
        rw [UInt64.toNat_mul]
        exact Nat.mod_eq_of_lt (by change value.toNat * 1000 < 2 ^ 64; omega)
      rw [piOf, piOf, product, piPerUnit, piPerUnit, if_neg (Nat.not_lt.mpr moved.1),
        if_pos moved.2, Nat.mul_one]
  next kept =>
    cases counted
    have same : piPerUnit height = piPerUnit born := by
      unfold piPerUnit
      split <;> split <;> omega
    rw [piOf, piOf, same]

/-- The fees of a block are at most their exact sum. -/
theorem feeUnits_le (txs : List Tx) :
    (feeUnits txs).toNat ≤ (txs.map fun tx => tx.fee.toNat).sum := by
  have whole := toNat_foldl_add_le Tx.fee txs 0
  rw [UInt64.toNat_zero, Nat.zero_add] at whole
  exact whole

/-- The created worth of an entry. -/
theorem sum_created (tx : Tx) (height : Nat) :
    ((entryOf tx height).created.map fun entry => piWorth entry.2).sum =
      (tx.outputs.map fun output => output.value.toNat).sum * piPerUnit height := by
  rw [entryOf_created, txCredits, List.map_map]
  have each : ∀ start, ((tx.outputs.zipIdx start).map
      ((fun entry : Storage.UtxoCredit => piWorth entry.2) ∘ fun place =>
        ((tx.txid, UInt32.ofNat place.2),
          (⟨place.1.value, place.1.address, height⟩ : UtxoRecord)))).sum =
      (tx.outputs.map fun output => output.value.toNat).sum * piPerUnit height := by
    induction tx.outputs with
    | nil =>
        intro start
        rw [List.zipIdx_nil, List.map_nil, List.map_nil, List.sum_nil, Nat.zero_mul]
    | cons output rest ih =>
        intro start
        rw [List.zipIdx_cons, List.map_cons, List.sum_cons, ih (start + 1), List.map_cons,
          List.sum_cons, Nat.add_mul]
        rfl
  exact each 0

/-- The outputs of an accepted coinbase are the amounts of its roles. -/
theorem Accepted.sum_cb (accepted : Accepted host) :
    (accepted.cb.outputs.map fun output => output.value.toNat).sum =
      cbTotal accepted.checked.draft.cbOuts := by
  rw [accepted.cb_eq]
  change (((accepted.checked.draft.cbOuts.filter fun out => out.units != 0).map fun out =>
    (⟨out.units, out.address⟩ : TxOut)).map fun output => output.value.toNat).sum = _
  rw [List.map_map, cbTotal]
  induction accepted.checked.draft.cbOuts with
  | nil => rfl
  | cons out rest ih =>
      rw [List.filter_cons, List.map_cons, List.sum_cons]
      by_cases zero : out.units = 0
      · rw [if_neg (by simpa using zero), ih, zero, UInt64.toNat_zero, Nat.zero_add]
      · rw [if_pos (by simpa using zero), List.map_cons, List.sum_cons, ih]
        rfl

end Amounts

/-! ## One block -/

section Block

variable {accepted : Accepted host} {before after : List Tx} {tx : Tx}

/-- Every coin of a set was created at a height from 1 up to a limit. -/
def BornBy (limit : Nat) (utxo : UtxoSet) : Prop :=
  ∀ point rec, utxo.lookup point = some rec → 1 ≤ rec.height ∧ rec.height ≤ limit

theorem points_nodup {tx : Tx} (few : tx.outputs.length < 2 ^ 32) (height : Nat) :
    (entryOf tx height).points.Nodup := by
  have points : (entryOf tx height).points =
      (List.range' 0 tx.outputs.length).map fun vout => (tx.txid, UInt32.ofNat vout) := by
    rw [← List.zipIdx_map_snd, List.map_map, Ledger.Entry.points, entryOf, List.map_map]
    rfl
  rw [points]
  refine List.Nodup.map_on ?_ List.nodup_range'
  intro first firstIn second secondIn same
  have indices := congrArg UInt32.toNat (Prod.mk.inj same).2
  have firstBelow := List.mem_range'_1.mp firstIn
  have secondBelow := List.mem_range'_1.mp secondIn
  have size : UInt32.size = 2 ^ 32 := rfl
  rwa [UInt32.toNat_ofNat_of_lt' (by omega), UInt32.toNat_ofNat_of_lt' (by omega)] at indices

theorem mem_created {tx : Tx} {vout : UInt32} (below : vout.toNat < tx.outputs.length)
    (height : Nat) : ((tx.txid, vout), (⟨tx.outputs[vout.toNat].value,
      tx.outputs[vout.toNat].address, height⟩ : UtxoRecord)) ∈ (entryOf tx height).created := by
  rw [entryOf_created, txCredits]
  refine List.mem_map.mpr ⟨(tx.outputs[vout.toNat], vout.toNat), ?_, ?_⟩
  · exact List.mk_mem_zipIdx_iff_getElem?.mpr (List.getElem?_eq_getElem below)
  · simp only [UInt32.ofNat_toNat]

/-- In the middle of a block, an input holds what it counts for. -/
theorem worthAt_input (split : accepted.txs = before ++ tx :: after)
    (bornBy : BornBy accepted.height accepted.node.storage.utxo) {cur : UtxoSet}
    (posted : Ledger.postAll accepted.node.storage.utxo
      (blockEntries accepted.cb before accepted.height) = some cur)
    {point : Outpoint} (spent : point ∈ tx.inputs.map TxIn.outpoint) :
    Ledger.worthAt piWorth cur point =
      pointWorth accepted.node.storage.utxo (accepted.cb :: before) accepted.height point *
        piPerUnit accepted.height := by
  obtain ⟨_, _, _, _, _, passed⟩ := accepted.tx_passed split
  obtain ⟨_, _, total, summed, _⟩ := checkSpendable_ok.mp passed.spendable
  obtain ⟨input, inputIn, rfl⟩ := List.mem_map.mp spent
  obtain ⟨free, found, worth, located, counted⟩ := sumInputs_ok summed input inputIn
  have unspent := spentBy_eq_false.mp free
  have entries : blockEntries accepted.cb before accepted.height =
      (accepted.cb :: before).map fun tx => entryOf tx accepted.height := rfl
  have worthEq : pointWorth accepted.node.storage.utxo (accepted.cb :: before) accepted.height
      input.outpoint = worth.toNat := by
    simp only [pointWorth, TxIn.outpoint, located, Option.bind_some, counted, Option.map_some,
      Option.getD_some]
  rw [worthEq]
  change _ = piOf worth accepted.height
  rcases findOutpoint_some located with ⟨rec, present, rfl⟩ | ⟨_, source, listed, named, below, rfl⟩
  · obtain ⟨positive, early⟩ := bornBy _ rec present
    rw [if_neg (by omega)] at counted
    have kept := Ledger.lookup_postAll_of_mem posted (Finmap.mem_of_lookup_eq_some present) (by
      intro entry entryIn
      rw [entries] at entryIn
      obtain ⟨earlier, earlierIn, rfl⟩ := List.mem_map.mp entryIn
      exact unspent earlier earlierIn)
    rw [Ledger.worthAt, TxIn.outpoint, kept, present]
    exact (worthAt_pi early counted).symm
  · obtain ⟨front, back, whole⟩ := List.append_of_mem listed
    have fewOutputs : source.outputs.length < 2 ^ 32 := by
      refine accepted.outputs_below ?_
      rcases List.mem_cons.mp listed with isCb | confirmed
      · exact .inl isCb
      · rw [split]
        exact .inr (List.mem_append_left _ confirmed)
    rw [entries, whole, List.map_append, List.map_cons] at posted
    have there := Ledger.lookup_postAll_created posted (points_nodup fewOutputs accepted.height)
      (mem_created below accepted.height) (by
        intro entry entryIn
        obtain ⟨later, laterIn, rfl⟩ := List.mem_map.mp entryIn
        rw [named]
        refine unspent later ?_
        rw [whole]
        exact List.mem_append_right _ (List.mem_cons_of_mem _ laterIn))
    rw [Ledger.worthAt, TxIn.outpoint, ← named, there]
    exact (worthAt_pi (Nat.le_refl _) counted).symm

/-- One transaction of a block gives up its fee. -/
theorem confirm_weight (split : accepted.txs = before ++ tx :: after)
    (bornBy : BornBy accepted.height accepted.node.storage.utxo)
    (sound : accepted.node.names.Sound) (fits : SumsFit accepted)
    (once : (tx.inputs.map TxIn.outpoint).Nodup) {cur next : UtxoSet}
    (postedBefore : Ledger.postAll accepted.node.storage.utxo
      (blockEntries accepted.cb before accepted.height) = some cur)
    (posted : Ledger.post cur (entryOf tx accepted.height) = some next)
    {known : List Text} {book flags : FlagBook}
    (flagged : applyFlagTxs accepted.node.flags before accepted.height = .ok book)
    (applied : applyFlagTx book tx accepted.height = .ok flags)
    (source : FlagsFrom known book) (fresh : toHex tx.txid ∉ known) {born : Text → Nat}
    (bornNow : born (toHex tx.txid) = accepted.height)
    (bornBefore : ∀ id ∈ known, born id ≤ accepted.height) :
    supply next + escrowWorth born flags + tx.fee.toNat * piPerUnit accepted.height ≤
      supply cur + escrowWorth born book := by
  have member : tx ∈ accepted.txs := by
    rw [split]
    exact List.mem_append_right _ List.mem_cons_self
  obtain ⟨staged, _, _, _, stagedEq, passed⟩ := accepted.tx_passed split
  rw [flagged] at stagedEq
  cases stagedEq
  have balance := checkSpendable_le passed.spendable (fits.needs tx member)
  have escrow := applyFlagTx_escrow source fresh (accepted.txs_parsed sound tx member) applied
    bornNow bornBefore (accepted.cb :: before)
  have coins := Ledger.weigh_settle_le piWorth posted once
  rw [sum_created] at coins
  have inputs : ((entryOf tx accepted.height).spends.map (Ledger.worthAt piWorth cur)).sum =
      ((tx.inputs.map TxIn.outpoint).map (pointWorth accepted.node.storage.utxo
        (accepted.cb :: before) accepted.height)).sum * piPerUnit accepted.height := by
    rw [← List.sum_map_mul_right]
    refine congrArg List.sum (List.map_congr_left fun point spent => ?_)
    exact worthAt_input split bornBy postedBefore spent
  rw [inputs] at coins
  have scaled := Nat.mul_le_mul_right (piPerUnit accepted.height) balance
  simp only [paidOut, putIn, Nat.add_mul] at scaled
  unfold piOf at escrow
  unfold supply
  omega

theorem postAll_block_append {utxo next : UtxoSet} {cb : Tx} {height : Nat}
    (posted : Ledger.postAll utxo (blockEntries cb (before ++ [tx]) height) = some next) :
    ∃ cur, Ledger.postAll utxo (blockEntries cb before height) = some cur ∧
      Ledger.post cur (entryOf tx height) = some next := by
  have entries : blockEntries cb (before ++ [tx]) height =
      blockEntries cb before height ++ [entryOf tx height] := by
    rw [blockEntries, blockEntries, List.map_append, List.cons_append]
    rfl
  rw [entries, Ledger.postAll_append] at posted
  obtain ⟨cur, front, last⟩ := Option.bind_eq_some_iff.mp posted
  obtain ⟨same, one, done⟩ := Option.bind_eq_some_iff.mp last
  cases done
  exact ⟨cur, front, one⟩

theorem applyFlagTxs_append_ok {book flags : FlagBook} {height : Nat}
    (applied : applyFlagTxs book (before ++ [tx]) height = .ok flags) :
    ∃ middle, applyFlagTxs book before height = .ok middle ∧
      applyFlagTx middle tx height = .ok flags := by
  rw [applyFlagTxs, List.foldlM_append] at applied
  obtain ⟨middle, front, last⟩ := bind_eq_ok.mp applied
  rw [List.foldlM_cons] at last
  obtain ⟨same, one, done⟩ := bind_eq_ok.mp last
  cases done
  exact ⟨middle, front, one⟩

/-- The first transactions of a block give up their fees, out of what was there
and what the coinbase pays. -/
theorem front_weight (before after : List Tx) (split : accepted.txs = before ++ after)
    (bornBy : BornBy accepted.height accepted.node.storage.utxo)
    (sound : accepted.node.names.Sound) (fits : SumsFit accepted)
    (once : ∀ tx ∈ accepted.txs, (tx.inputs.map TxIn.outpoint).Nodup)
    {known : List Text} (source : FlagsFrom known accepted.node.flags)
    (distinct : (known ++ accepted.txs.map fun tx => toHex tx.txid).Nodup) {born : Text → Nat}
    (bornNow : ∀ tx ∈ accepted.txs, born (toHex tx.txid) = accepted.height)
    (bornBefore : ∀ id ∈ known, born id ≤ accepted.height) {cur : UtxoSet} {book : FlagBook}
    (posted : Ledger.postAll accepted.node.storage.utxo
      (blockEntries accepted.cb before accepted.height) = some cur)
    (flagged : applyFlagTxs accepted.node.flags before accepted.height = .ok book) :
    FlagsFrom (known ++ before.map fun tx => toHex tx.txid) book ∧
      supply cur + escrowWorth born book +
          (before.map fun tx => tx.fee.toNat).sum * piPerUnit accepted.height ≤
        supply accepted.node.storage.utxo + escrowWorth born accepted.node.flags +
          cbTotal accepted.checked.draft.cbOuts * piPerUnit accepted.height := by
  induction before using List.reverseRecOn generalizing after cur book with
  | nil =>
      cases flagged
      rw [List.map_nil, List.append_nil, List.map_nil, List.sum_nil, Nat.zero_mul]
      refine ⟨source, ?_⟩
      obtain ⟨paid, coinbase, done⟩ := Option.bind_eq_some_iff.mp posted
      cases done
      have spendless : (entryOf accepted.cb accepted.height).spends = [] := by
        rw [entryOf, accepted.cb_shape.2.2.1]
        rfl
      have weight := Ledger.weigh_settle_le piWorth coinbase (spendless ▸ List.nodup_nil)
      rw [sum_created, accepted.sum_cb] at weight
      unfold supply
      omega
  | append_singleton front tx ih =>
      rw [List.append_assoc] at split
      obtain ⟨middle, frontPosted, one⟩ := postAll_block_append posted
      obtain ⟨staged, frontFlagged, applied⟩ := applyFlagTxs_append_ok flagged
      obtain ⟨frontSource, bound⟩ := ih _ split frontPosted frontFlagged
      have member : tx ∈ accepted.txs := by
        rw [split]
        exact List.mem_append_right _ List.mem_cons_self
      have fresh : toHex tx.txid ∉ known ++ front.map fun tx => toHex tx.txid := by
        rw [split, List.map_append, ← List.append_assoc, List.singleton_append, List.map_cons,
          List.nodup_middle, List.nodup_cons] at distinct
        exact fun old => distinct.1 (List.mem_append_left _ old)
      have early : ∀ id ∈ known ++ front.map fun tx => toHex tx.txid,
          born id ≤ accepted.height := by
        intro id listed
        rcases List.mem_append.mp listed with older | inBlock
        · exact bornBefore id older
        · obtain ⟨other, otherIn, rfl⟩ := List.mem_map.mp inBlock
          refine Nat.le_of_eq (bornNow other ?_)
          rw [split]
          exact List.mem_append_left _ otherIn
      have step := confirm_weight split bornBy sound fits (once tx member) frontPosted one
        frontFlagged applied frontSource fresh (bornNow tx member) early
      refine ⟨(frontSource.apply applied).mono ?_, ?_⟩
      · rw [List.map_append, ← List.append_assoc, List.map_singleton]
        exact List.cons_subset.mpr ⟨List.mem_append_right _ (List.mem_singleton_self _),
          List.subset_append_left _ _⟩
      · rw [List.map_append, List.sum_append, List.map_singleton, List.sum_singleton, Nat.add_mul]
        omega

/-- A block adds at most the subsidy of its height. -/
theorem block_weight (known : List Text) (born : Text → Nat)
    (bornBy : BornBy accepted.height accepted.node.storage.utxo)
    (sound : accepted.node.names.Sound) (fits : SumsFit accepted)
    (once : ∀ tx ∈ accepted.txs, (tx.inputs.map TxIn.outpoint).Nodup)
    (source : FlagsFrom known accepted.node.flags)
    (distinct : (known ++ accepted.txs.map fun tx => toHex tx.txid).Nodup)
    (bornNow : ∀ tx ∈ accepted.txs, born (toHex tx.txid) = accepted.height)
    (bornBefore : ∀ id ∈ known, born id ≤ accepted.height) {next : UtxoSet} {flags : FlagBook}
    (posted : Ledger.postAll accepted.node.storage.utxo
      (blockEntries accepted.cb accepted.txs accepted.height) = some next)
    (flagged : applyFlagTxs accepted.node.flags accepted.txs accepted.height = .ok flags) :
    FlagsFrom (known ++ accepted.txs.map fun tx => toHex tx.txid) flags ∧
      supply next + escrowWorth born flags ≤
        supply accepted.node.storage.utxo + escrowWorth born accepted.node.flags + 218000 := by
  obtain ⟨after, bound⟩ := front_weight accepted.txs []
    (List.append_nil _).symm bornBy sound fits once source distinct bornNow bornBefore posted
    flagged
  obtain ⟨payout, drafted⟩ := accepted.passes.drafted
  have coinbase := checkPaid_le drafted.paid fits.paid
  have fees := Nat.mul_le_mul_right (piPerUnit accepted.height) (feeUnits_le accepted.txs)
  change cbTotal accepted.checked.draft.cbOuts * piPerUnit accepted.height ≤
    218000 + (feeUnits accepted.txs).toNat * piPerUnit accepted.height at coinbase
  exact ⟨after, by omega⟩

end Block

/-! ## Every run -/

section Runs

variable {log : List (Accepted host)} {accepted : Accepted host}

theorem userIds_append (log : List (Accepted host)) (accepted : Accepted host) :
    userIds (log ++ [accepted]) = userIds log ++ accepted.txs.map fun tx => toHex tx.txid := by
  rw [userIds, List.flatMap_append, List.flatMap_singleton]
  rfl

/-- Ids that differ as digests differ in flags. -/
theorem userIds_nodup (distinct : ((logTxs log).map Tx.txid).Nodup) : (userIds log).Nodup := by
  have sub : (log.flatMap Accepted.txs).Sublist (logTxs log) := by
    induction log with
    | nil => exact List.Sublist.refl _
    | cons first rest ih =>
        rw [logTxs, List.flatMap_cons, List.flatMap_cons] at *
        rw [List.map_append, List.nodup_append] at distinct
        exact (List.sublist_cons_self _ _).append (ih distinct.2.1)
  have ids : userIds log = ((log.flatMap Accepted.txs).map Tx.txid).map toHex := by
    rw [userIds, List.map_map, List.map_flatMap]
    rfl
  rw [ids]
  exact ((sub.map Tx.txid).nodup distinct).map toHex_injective

theorem ids_chainBook (log : List (Accepted host)) :
    ((chainBook log).map bookEntry).map Ledger.Entry.id = (logTxs log).map Tx.txid := by
  rw [chainBook, logTxs, List.map_flatMap, List.map_flatMap, List.map_flatMap]
  refine congrArg (fun ids => log.flatMap ids) (funext fun accepted => ?_)
  rw [List.map_map, List.map_map]
  rfl

/-- The coins of a chain were born on it. -/
theorem OnChain.bornBy {chain : List (Accepted host)} {storage : Storage}
    (on : OnChain chain storage) : BornBy chain.length storage.utxo := by
  intro point rec found
  obtain ⟨entry, entryIn, created⟩ := on.coins.coin_created found
  obtain ⟨accepted, member, inBlock⟩ := List.mem_flatMap.mp entryIn
  obtain ⟨tx, rfl⟩ : ∃ tx, entry = entryOf tx accepted.height := by
    rcases List.mem_cons.mp inBlock with rfl | confirmed
    · exact ⟨accepted.cb, rfl⟩
    · obtain ⟨tx, _, rfl⟩ := List.mem_map.mp confirmed
      exact ⟨tx, rfl⟩
  rw [entryOf_created, txCredits] at created
  obtain ⟨_, _, same⟩ := List.mem_map.mp created
  have height : rec.height = accepted.height := by
    rw [← (Prod.mk.inj same).2]
  obtain ⟨index, below, rfl⟩ := List.mem_iff_getElem.mp member
  have placed := on.linked.height (List.getElem?_eq_getElem below)
  omega

theorem confirmedAt_old {id : Text} (known : id ∈ userIds log) :
    confirmedAt (log ++ [accepted]) id = confirmedAt log id := by
  obtain ⟨older, listed, inBlock⟩ := List.mem_flatMap.mp known
  obtain ⟨tx, confirmed, same⟩ := List.mem_map.mp inBlock
  have found : (log.find? fun accepted => accepted.txs.any fun tx => toHex tx.txid == id).isSome :=
    List.find?_isSome.mpr ⟨older, listed, List.any_eq_true.mpr ⟨tx, confirmed, beq_iff_eq.mpr same⟩⟩
  rw [confirmedAt, confirmedAt, List.find?_append, Option.or_of_isSome found]

theorem confirmedAt_new {tx : Tx} (fresh : toHex tx.txid ∉ userIds log)
    (confirmed : tx ∈ accepted.txs) :
    confirmedAt (log ++ [accepted]) (toHex tx.txid) = accepted.height := by
  have none : (log.find? fun accepted => accepted.txs.any fun other =>
      toHex other.txid == toHex tx.txid) = none := by
    rw [List.find?_eq_none]
    intro older listed found
    obtain ⟨other, otherIn, same⟩ := List.any_eq_true.mp found
    exact fresh (List.mem_flatMap.mpr
      ⟨older, listed, List.mem_map.mpr ⟨other, otherIn, eq_of_beq same⟩⟩)
  have found : (accepted.txs.any fun other => toHex other.txid == toHex tx.txid) = true :=
    List.any_eq_true.mpr ⟨tx, confirmed, beq_self_eq_true _⟩
  rw [confirmedAt, List.find?_append, none, Option.none_or, List.find?_cons, found]
  rfl

theorem confirmedAt_le (linked : Linked log) (id : Text) : confirmedAt log id ≤ log.length := by
  rw [confirmedAt]
  cases found : log.find? fun accepted => accepted.txs.any fun tx => toHex tx.txid == id with
  | none => exact Nat.zero_le _
  | some accepted =>
      obtain ⟨index, below, rfl⟩ := List.mem_iff_getElem.mp (List.mem_of_find?_eq_some found)
      have height := linked.height (List.getElem?_eq_getElem below)
      change log[index].height ≤ log.length
      omega

theorem escrowWorth_congr {known : List Text} {book : FlagBook} (source : FlagsFrom known book)
    {born other : Text → Nat} (same : ∀ id ∈ known, born id = other id) :
    escrowWorth born book = escrowWorth other book := by
  refine congrArg List.sum (List.map_congr_left fun flag member => ?_)
  rw [same flag.txid (source flag member).1]

/-- Coins and flags that are worth no more than the blocks of a chain could
bring. -/
structure Solvent (log : List (Accepted host)) (node : Node) : Prop where
  flags : FlagsFrom (userIds log) node.flags
  bound : supply node.storage.utxo + escrowWorth (confirmedAt log) node.flags ≤ 218000 * log.length

/-- A connected block keeps a node solvent. -/
theorem Solvent.connect {node : Node} (solvent : Solvent log node) (grounded : Grounded log node)
    (linear : Linear log node) {moment : Moment} {localPolicy : Bool} {params : Json}
    (passed : acceptance host moment localPolicy node params = some accepted)
    (grown : Linear (log ++ [accepted]) (connectBlock host moment localPolicy
      { node with names := accepted.names } accepted.checked))
    (fits : SumsFit accepted) (once : ∀ tx ∈ accepted.txs, (tx.inputs.map TxIn.outpoint).Nodup) :
    Solvent (log ++ [accepted]) (connectBlock host moment localPolicy
      { node with names := accepted.names } accepted.checked) := by
  have nodeEq := (acceptance_of passed).node_eq
  have above := grounded.sourced.traced.above passed
  rw [linear.on.best] at above
  have distinct : (userIds log ++ accepted.txs.map fun tx => toHex tx.txid).Nodup := by
    rw [← userIds_append]
    exact userIds_nodup (ids_chainBook (log ++ [accepted]) ▸ grown.booked.distinct)
  have posted : Ledger.postAll node.storage.utxo
      (blockEntries accepted.cb accepted.txs accepted.height) =
        some (connectBlock host moment localPolicy { node with names := accepted.names }
          accepted.checked).storage.utxo := by
    have whole := grown.on.coins
    rw [chainEntries_append, Ledger.Journal, Ledger.postAll_append, linear.on.coins] at whole
    exact whole
  have flagged := (checkTxs_ok accepted.passes.txs).1
  have flags : (connectBlock host moment localPolicy { node with names := accepted.names }
      accepted.checked).flags = accepted.checked.flags := by
    obtain ⟨_, _, _, _, connected⟩ := connectBlock_eq host moment localPolicy
      { node with names := accepted.names } accepted.checked
    rw [connected]
  have bornBy : BornBy accepted.height accepted.node.storage.utxo := by
    intro point rec found
    rw [nodeEq] at found
    obtain ⟨positive, early⟩ := linear.on.bornBy point rec found
    exact ⟨positive, by omega⟩
  obtain ⟨source, weight⟩ := block_weight (userIds log)
    (confirmedAt (log ++ [accepted])) bornBy
    (nodeEq ▸ grounded.names) fits once (nodeEq ▸ solvent.flags) distinct
    (fun tx confirmed => confirmedAt_new (fun known => by
      rw [List.nodup_append] at distinct
      exact distinct.2.2 _ known _ (List.mem_map_of_mem confirmed) rfl) confirmed)
    (fun id known => by
      rw [confirmedAt_old known]
      have early := confirmedAt_le linear.on.linked id
      omega) (nodeEq ▸ posted) flagged
  refine ⟨?_, ?_⟩
  · rw [flags, userIds_append]
    exact source
  · have older : escrowWorth (confirmedAt (log ++ [accepted])) node.flags =
        escrowWorth (confirmedAt log) node.flags :=
      escrowWorth_congr solvent.flags fun id known => confirmedAt_old known
    rw [nodeEq, older] at weight
    rw [flags, List.length_append, List.length_singleton]
    have bound := solvent.bound
    omega

/-- **Supply bound.** In a run of submissions in which no sum of validation
wraps and no transaction lists an outpoint twice, all coins and all escrow
together are worth at most 218000 pi for every connected block, and `stored_to_pi`
gives each of these worths without overflow. -/
theorem supply_bound {wallets : Wallets} {calls : List Call} {node : Node}
    (ran : (nodeMachine host).Runs (fun _ call => call.isSubmission = true)
      (Node.empty wallets) calls log node)
    (free : CollisionFree (logTxs log)) (fits : ∀ accepted ∈ log, SumsFit accepted)
    (once : ∀ accepted ∈ log, ∀ tx ∈ accepted.txs, (tx.inputs.map TxIn.outpoint).Nodup) :
    supply node.storage.utxo + escrowWorth (confirmedAt log) node.flags ≤ 218000 * log.length ∧
      (∀ point rec, node.storage.utxo.lookup point = some rec →
        (storedToPi rec.value rec.height).map UInt64.toNat = some (piWorth rec)) ∧
      ∀ flag ∈ node.flags,
        (storedToPi flag.escrow (confirmedAt log flag.txid)).map UInt64.toNat =
          some (piOf flag.escrow (confirmedAt log flag.txid)) := by
  obtain ⟨linear, solvent⟩ := (Linear.run_rule
    (fun log node => (∀ accepted ∈ log, SumsFit accepted) →
      (∀ accepted ∈ log, ∀ tx ∈ accepted.txs, (tx.inputs.map TxIn.outpoint).Nodup) →
      Solvent log node)
    (fun _ _ => ⟨fun _ impossible => (nomatch impossible), Nat.le_refl _⟩)
    (fun names holds fits once => ⟨(holds fits once).flags, (holds fits once).bound⟩)
    (fun grounded linear holds passed grown fits once => by
      rw [List.forall_mem_append, List.forall_mem_singleton] at fits once
      exact (holds fits.1 once.1).connect grounded linear passed grown fits.2 once.2) ran).2 free
  have bound := (solvent fits once).bound
  have few : 218000 * log.length < 2 ^ 64 := by
    rcases List.eq_nil_or_concat log with rfl | ⟨front, last, rfl⟩
    · exact Nat.zero_lt_succ _
    · have height := (linked_append_singleton.mp
        (@List.concat_eq_append _ front _ ▸ linear.on.linked)).2.1
      have below := last.height_lt
      rw [List.concat_eq_append, List.length_append, List.length_singleton, ← height]
      omega
  refine ⟨bound, ?_, ?_⟩
  · intro point rec found
    have one := Ledger.worth_le_weigh piWorth found
    exact storedToPi_eq (by
      change piWorth rec < _
      unfold supply at bound
      omega)
  · intro flag member
    have one : piOf flag.escrow (confirmedAt log flag.txid) ≤
        escrowWorth (confirmedAt log) node.flags := by
      obtain ⟨before, after, split⟩ := List.append_of_mem member
      rw [escrowWorth, split, List.map_append, List.map_cons, List.sum_append, List.sum_cons]
      omega
    exact storedToPi_eq (by omega)

/-- The sums of a sample coinbase fit. -/
theorem roleTotal_sampleOuts (role validator : Text) :
    roleTotal role (sampleOuts validator) < 2 ^ 64 := by
  rw [roleTotal, sampleOuts, List.filter_cons, List.filter_cons, List.filter_nil]
  split <;> split <;> simp [cbTotal]

theorem supply_bound_spending :
    ∃ (calls : List Call) (log : List (Accepted storedHost)) (node : Node),
      (nodeMachine storedHost).Runs (fun _ call => call.isSubmission = true)
        (Node.empty fun _ => none) calls log node ∧
      log.map Accepted.contents = spentContents ∧
      supply node.storage.utxo + escrowWorth (confirmedAt log) node.flags ≤ 218000 * 2 := by
  have run := spentNode_run storedHost (fun _ call => call.isSubmission = true) rfl rfl
  have paid : ∀ seen ∈ spentContents, ∀ role, roleTotal role seen.2.1 < 2 ^ 64 :=
    List.forall_mem_cons.mpr ⟨fun role => roleTotal_sampleOuts role capitalAddress,
      List.forall_mem_singleton.mpr fun role => roleTotal_sampleOuts role plainAddress⟩
  have needs : ∀ seen ∈ spentContents, ∀ tx ∈ seen.2.2.tail,
      (tx.outputs.map fun output => output.value.toNat).sum + tx.fee.toNat + tx.escrowLock.toNat <
        2 ^ 64 := by
    decide
  have once : ∀ seen ∈ spentContents, ∀ tx ∈ seen.2.2.tail,
      (tx.inputs.map TxIn.outpoint).Nodup := by
    decide
  have fits : ∀ accepted ∈ spentLog storedHost, SumsFit accepted :=
    fun accepted member =>
    ⟨Accepted.forall_contents spentLog_contents paid accepted member,
      Accepted.forall_contents spentLog_contents needs accepted member⟩
  have two : (spentLog storedHost).length = 2 := by
    rw [← List.length_map Accepted.contents, spentLog_contents]
    rfl
  have bound := (supply_bound run spentLog_free fits
    (Accepted.forall_contents spentLog_contents once)).1
  rw [two] at bound
  exact ⟨_, _, _, run, spentLog_contents, bound⟩

end Runs

end PiSecure
