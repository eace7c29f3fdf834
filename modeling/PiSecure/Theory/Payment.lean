import PiSecure.Theory.Lookup
import PiSecure.Theory.Rejection
import PiSecure.Theory.Supply
import PiSecure.Theory.Wallet

/-! # Payments

What the wallet sends is made from what the node answered. With the key of the address it
spends from, a payment is accepted unless its document is too large, an address is too long
or the same transaction is pending: the coins that were listed are there, are worth to the
node what they are worth to the wallet, and are spent by nothing else.
-/

namespace PiSecure

namespace Wallet

/-! ## Worth of a coin -/

section Worth

variable {money : Money} {height born : Nat} {units pi worth : UInt64}

theorem toNat_scaled (small : ¬units > uint64Max / piPerOldUnit) :
    (units * piPerOldUnit).toNat = units.toNat * 1000 := by
  have bound : units.toNat ≤ (uint64Max / piPerOldUnit).toNat :=
    UInt64.le_iff_toNat_le.mp (UInt64.not_lt.mp small)
  have limit : (uint64Max / piPerOldUnit).toNat = 18446744073709551 := by decide
  have scale : piPerOldUnit.toNat = 1000 := by decide
  rw [UInt64.toNat_mul, scale, Nat.mod_eq_of_lt (by omega)]

/-- A listed coin is worth to the node what it is worth to the wallet. -/
theorem worthAt_of_setWorth (scaled : money.scale = 1000 ↔ piActivationHeight ≤ height)
    (early : born < height) (positive : 1 ≤ born) (owner : Text)
    (shown : storedToPi units born = some pi) (set : setWorth pi money = .ok worth) :
    worthAt height ⟨units, owner, if born = 0 then height else born⟩ = some worth := by
  rw [if_neg (by omega)]
  unfold setWorth at set
  unfold storedToPi at shown
  unfold worthAt
  dsimp only
  by_cases late : height ≥ piActivationHeight
  · rw [if_pos (scaled.mpr late)] at set
    cases set
    by_cases old : born < piActivationHeight
    · rw [if_pos ⟨late, old⟩]
      rwa [if_neg (Nat.not_le.mpr old)] at shown
    · rw [if_neg fun both => old both.2]
      rwa [if_pos (Nat.not_lt.mp old)] at shown
  · rw [if_neg fun both => late both.1]
    rw [if_neg fun large => late (scaled.mp large)] at set
    rw [if_neg (by omega)] at shown
    split at shown
    · cases shown
    next small =>
      cases shown
      split at set
      · cases set
      · cases set
        refine congrArg some (UInt64.toNat_inj.mp ?_)
        have thousand : (1000 : UInt64).toNat = 1000 := by decide
        rw [UInt64.toNat_div, toNat_scaled small, thousand, Nat.mul_div_cancel _ (by decide)]

end Worth

/-! ## Coins that are reserved -/

theorem inputToJson_base (input : TxIn) :
    (inputToJson input).get? "prev_txid" = some (.string (toHex input.prev)) ∧
      (inputToJson input).get? "vout" = some (.unsigned input.vout.toUInt64) := by
  obtain ⟨prev, vout, signature, publicKey⟩ := input
  rw [inputToJson, Json.get?_ofMembers, Json.get?_ofMembers]
  cases signature <;> cases publicKey <;> exact ⟨rfl, rfl⟩

/-- The wallet sees as spent what the pending transactions spend. -/
theorem spentOutpoints_rpcGetmempool (host : Host) (moment : Moment) (node : Node) :
    spentOutpoints (Node.rpcGetmempool host moment node) =
      (mempoolTxs host moment node).flatMap fun tx => tx.inputs.map TxIn.outpoint := by
  have listed : items (Node.rpcGetmempool host moment node) "transactions" =
      (mempoolTxs host moment node).map txToJson := by
    rw [items, Json.array?, Node.rpcGetmempool, Json.get?_ofMembers]
    rfl
  rw [spentOutpoints, listed, List.flatMap_map]
  refine congrArg (fun outpoints => List.flatMap outpoints _) (funext fun tx => ?_)
  rw [items, Json.array?, (txToJson_base tx).2.1]
  change (tx.inputs.map inputToJson).filterMap _ = _
  rw [List.filterMap_map, ← List.filterMap_eq_map]
  refine congrArg (fun read => List.filterMap read tx.inputs) (funext fun input => ?_)
  obtain ⟨prev, vout⟩ := inputToJson_base input
  simp only [Function.comp_apply, Json.text?, Json.unsigned?, prev, vout, Option.bind_some,
    Json.asText?, Json.asUnsigned?, fromHex_toHex, Option.map_some, UInt32.toUInt32_toUInt64,
    Option.getD_some, TxIn.outpoint]

/-! ## Coins that are chosen -/

section Chosen

variable {host : Host} {wallets : Wallets} {utxo : UtxoSet} {prior : List Tx} {height : Nat}
  {owner : Text} {key : Key} {coin : Coin} {signature message : Text}

/-- A coin of an owner that the node has, that no pending transaction spends, and that is
worth as much to the node. -/
structure Available (utxo : UtxoSet) (prior : List Tx) (height : Nat) (owner : Text)
    (coin : Coin) : Prop where
  unspent : ∀ earlier ∈ prior, (coin.txid, coin.vout) ∉ earlier.inputs.map TxIn.outpoint
  held : ∃ rec, utxo.lookup (coin.txid, coin.vout) = some rec ∧ rec.address = owner ∧
    worthAt height ⟨rec.value, rec.address, if rec.height = 0 then height else rec.height⟩ =
      some coin.worth

/-- The input that spends a coin. -/
def spend (publicHex signature : Text) (coin : Coin) : TxIn :=
  ⟨coin.txid, coin.vout, signature, publicHex⟩

theorem Available.unspentBy (available : Available utxo prior height owner coin)
    (publicHex signature : Text) : spentBy prior (spend publicHex signature coin) = false :=
  spentBy_eq_false.mpr available.unspent

/-- The node sums the chosen coins as the wallet did. -/
theorem takeCoins_sums {need sum total : UInt64} {coins chosen taken : List Coin}
    (available : ∀ coin ∈ coins, Available utxo prior height owner coin)
    (took : takeCoins need coins chosen sum = .ok (taken, total)) (publicHex signature : Text) :
    ∃ more, taken = chosen ++ more ∧ (∀ coin ∈ more, coin ∈ coins) ∧
      sumInputs utxo prior height (more.map (spend publicHex signature)) sum = .ok total := by
  induction coins generalizing chosen sum with
  | nil =>
      cases took
      exact ⟨[], (List.append_nil _).symm, fun _ listed => listed, rfl⟩
  | cons coin rest ih =>
      obtain ⟨first, others⟩ := List.forall_mem_cons.mp available
      rw [takeCoins] at took
      split at took
      · cases took
        exact ⟨[], (List.append_nil _).symm, List.forall_mem_nil _, rfl⟩
      split at took
      · cases took
      next fits =>
        obtain ⟨more, same, among, summed⟩ := ih others took
        refine ⟨coin :: more, by rw [same, List.append_assoc]; rfl, ?_, ?_⟩
        · exact fun _ listed => List.mem_cons.mpr ((List.mem_cons.mp listed).imp_right (among _))
        · obtain ⟨rec, found, _, worth⟩ := first.held
          have located : findOutpoint utxo prior coin.txid coin.vout height =
              some ⟨rec.value, rec.address, if rec.height = 0 then height else rec.height⟩ := by
            rw [findOutpoint, found]
          rw [List.map_cons, sumInputs, first.unspentBy, if_neg Bool.false_ne_true]
          dsimp only [spend]
          rw [located]
          dsimp only
          rw [worth]
          dsimp only
          rw [if_neg fits]
          exact summed

/-- A key of an address, at a node that may have its key file. The library verifies what it
signed. -/
structure Opens (host : Host) (wallets : Wallets) (address : Text) (key : Key) : Prop where
  held : boundPublicKey wallets address = some (lowerHex key.publicHex) ∨
    isLongAddress address = true ∧ boundPublicKey wallets address = none
  verifies : ∃ raw, decodeHex (lowerHex key.publicHex) = some raw ∧ raw.length = 32 ∧
    (isLongAddress address = true → host.longAddress raw = address) ∧
    ∀ message signature, key.sign message = .ok signature → signature ≠ [] ∧
      ∃ sig, decodeHex signature = some sig ∧ host.ed25519Verify raw sig message = true

/-- An input that the key of its owner signed is verified. -/
theorem verifyInput_opened {sentMessage : Bytes} (opens : Opens host wallets owner key)
    (available : Available utxo prior height owner coin)
    (made : key.sign sentMessage = .ok signature) :
    verifyInput host wallets utxo sentMessage true prior (spend key.publicHex signature coin) =
      .ok () := by
  obtain ⟨rec, found, owned, _⟩ := available.held
  obtain ⟨raw, decoded, sized, long, verifies⟩ := opens.verifies
  obtain ⟨written, sig, signatureRead, verified⟩ := verifies sentMessage signature made
  have located : findOutpoint utxo prior coin.txid coin.vout 0 =
      some ⟨rec.value, owner, if rec.height = 0 then 0 else rec.height⟩ := by
    rw [findOutpoint, found, ← owned]
  have presented : ¬key.publicHex.isEmpty = true := by
    intro empty
    rw [List.isEmpty_iff.mp empty] at decoded
    cases decoded
    cases sized
  have signs : ¬signature.isEmpty = true := fun empty => written (List.isEmpty_iff.mp empty)
  have keyed : ¬(boundPublicKey wallets owner).isNone = true ∨ isLongAddress owner = true := by
    rcases opens.held with held | ⟨isLong, _⟩
    · rw [held]
      exact .inl Bool.false_ne_true
    · exact .inr isLong
  have matching : ¬(boundPublicKey wallets owner).any (· != lowerHex key.publicHex) = true := by
    rcases opens.held with held | ⟨_, none⟩
    · rw [held, Option.any_some, bne_self_eq_false]
      exact Bool.false_ne_true
    · rw [none]
      exact Bool.false_ne_true
  rw [spend, verifyInput]
  dsimp only
  rw [located]
  dsimp only
  rw [if_neg fun all => keyed.elim (· all.2.1) all.2.2, if_neg signs, if_neg presented,
    if_neg matching, decoded]
  dsimp only
  rw [if_neg (not_not.mpr sized), if_neg fun other => other.2 (long other.1), signatureRead,
    Option.any_some, if_pos verified]

end Chosen

/-! ## What the daemon answers -/

section Answers

variable {host : Host} {moment later : Moment} {node : Node} {desk : Desk}
  {src dst amount feeText text address : Text} {sent : Sent}

/-- The answers of a daemon that does nothing else meanwhile. Queries read the names file, and
each is answered after some of the others. -/
structure Serves (host : Host) (moment : Moment) (node : Node) (desk : Desk) : Prop where
  info : desk.info = rpcGetblockchaininfo node
  names : ∀ text, ∃ reads,
    desk.nameLookup text = .ok (lookedUp host (Node.refreshed^[reads] node) text)
  coins : ∀ address, ∃ reads, ∀ money, loadMoney desk = .ok money →
    desk.listUnspent address = listedCoins money (unspentRows
      ((Node.refreshed^[reads] node).rpcListunspent host
        (.ofMembers [("address", .string address)])).2)
  pending : desk.reserved = .ok (spentOutpoints (Node.rpcGetmempool host moment node))

/-- What every run keeps, as far as payments rest on it. -/
structure Steady (node : Node) : Prop where
  names : node.names.Sound
  born : BornBy node.storage.bestHeight node.storage.utxo
  next : node.nextHeight = node.storage.bestHeight + 1

theorem Serves.scaled (serves : Serves host moment node desk) (steady : Steady node) :
    Scaled desk node.nextHeight := by
  rw [Scaled, serves.info, steady.next, rpcGetblockchaininfo, Json.unsigned?, Json.get?_ofMembers]
  rfl

theorem resolveAddress_of_addressOf (found : addressOf desk text = .ok address) :
    resolveAddress desk text = .ok address := by
  unfold addressOf at found
  obtain ⟨resolved, answered, rest⟩ := bind_eq_ok.mp found
  obtain ⟨_, _, rest⟩ := bind_eq_ok.mp rest
  rw [answered, pure_eq_ok.mp rest]

/-- The addresses that the wallet works with are no names. -/
theorem Serves.resolved (serves : Serves host moment node desk) (steady : Steady node)
    (found : addressOf desk text = .ok address) : Resolved node.refreshed.names address := by
  have present := addressOf_ok found
  have answered := resolveAddress_of_addressOf found
  unfold resolveAddress at answered
  dsimp only at answered
  by_cases folded : normalizePs1 text = []
  · obtain ⟨reads, looked⟩ := serves.names text
    rw [folded, if_neg (by decide), looked] at answered
    have same : address = (lookedUp host (Node.refreshed^[reads] node) text).getD text := by
      cases named : lookedUp host (Node.refreshed^[reads] node) text with
      | none =>
          rw [named] at answered
          exact (Except.ok.inj answered).symm
      | some owner =>
          rw [named] at answered
          exact (Except.ok.inj answered).symm
    have named : text ≠ [] := by
      rintro rfl
      exact present same
    rw [same]
    refine (lookedUp_resolved (sound_refreshed steady.names reads) named folded).alike ?_
    rw [← bindings_refreshed node reads, Function.iterate_succ_apply']
  · rw [if_pos (by simpa using folded)] at answered
    rw [← Except.ok.inj answered]
    exact .of_long (sound_refreshed steady.names 1) (normalizePs1_long folded)

/-- A listed coin that nothing pending spends is one that the node has. -/
theorem Serves.available (serves : Serves host moment node desk) (steady : Steady node)
    (paying : Paying desk src dst amount feeText sent) {coin : Coin} (listed : coin ∈ paying.listed)
    (unreserved : (coin.txid, coin.vout) ∉ paying.reserved) :
    Available node.storage.utxo (mempoolTxs host moment node) node.nextHeight paying.source
      coin := by
  have resolved := serves.resolved steady paying.resolvedSource
  obtain ⟨reads, answer⟩ := serves.coins paying.source
  have made : listedCoins paying.money _ = .ok paying.listed :=
    (answer _ paying.loaded).symm.trans paying.listedCoins
  obtain ⟨row, among, made⟩ := mem_listedCoins made listed
  rw [unspentRows_rpcListunspent] at among
  obtain ⟨shown, collected, rfl⟩ := List.mem_map.mp among
  obtain ⟨entered, worth⟩ := mem_listingOf collected
  have own : ((Node.refreshed^[reads] node).refreshed.names.unspentAddress paying.source).1 =
      paying.source := by
    refine (resolved.alike ?_).unspentAddress
    rw [← bindings_refreshed node reads, Function.iterate_succ_apply']
  rw [own] at entered
  obtain ⟨found, owned⟩ := mem_listUtxos.mp entered
  obtain ⟨_, same⟩ := refreshed_iterate node reads
  rw [same] at found
  rw [readRow_unspentRow, coinFromRow] at made
  dsimp only at made
  split at made
  · cases made
  obtain ⟨value, set, rest⟩ := bind_eq_ok.mp made
  obtain rfl := pure_eq_ok.mp rest
  obtain ⟨positive, early⟩ := steady.born _ _ found
  refine ⟨fun earlier pending spent => unreserved ?_, _, found, ?_, ?_⟩
  · have pendingIs := paying.reservedCoins.symm.trans serves.pending
    rw [Except.ok.inj pendingIs, spentOutpoints_rpcGetmempool]
    exact List.mem_flatMap.mpr ⟨earlier, pending, spent⟩
  · exact owned.resolve_left (addressOf_ok paying.resolvedSource)
  · refine worthAt_of_setWorth (loadMoney_scale (serves.scaled steady) paying.loaded) ?_ positive _
      worth set
    rw [steady.next]
    exact Nat.lt_succ_of_le early

/-- The outputs of a payment stay as they are: neither address is a name. -/
theorem Serves.resolveOutputs (serves : Serves host moment node desk) (steady : Steady node)
    (paying : Paying desk src dst amount feeText sent) {names : NameTable}
    (same : names.bindings = node.refreshed.names.bindings) {tx : Tx}
    (outputs : tx.outputs = paying.tx.outputs) : names.resolveOutputNames host tx = tx := by
  have kept : ∀ output ∈ paying.tx.outputs, names.resolveOutput output = output := by
    have unnamed : ∀ {text address value}, addressOf desk text = .ok address →
        names.resolveOutput ⟨value, address⟩ = ⟨value, address⟩ := by
      intro text address value found
      rw [NameTable.resolveOutput, ((serves.resolved steady found).alike same).unnamed]
    refine List.forall_mem_cons.mpr ⟨unnamed paying.resolvedTarget, fun output listed => ?_⟩
    unfold changeOutput at listed
    split at listed
    · rw [List.mem_singleton.mp listed]
      exact unnamed paying.resolvedSource
    · cases listed
  unfold NameTable.resolveOutputNames
  dsimp only
  rw [outputs, List.map_congr_left kept, List.map_id', if_pos rfl]

/-- The outputs of a payment and its fee are what its coins are worth. -/
theorem Paying.balanced (paying : Paying desk src dst amount feeText sent) :
    sumOutputs paying.tx.outputs + paying.fee ≤ paying.sum := by
  have covers := UInt64.not_lt.mp paying.covers
  change (changeOutput paying.change paying.source).foldl _ (0 + paying.pay) + paying.fee ≤ _
  unfold changeOutput
  split
  · refine UInt64.le_of_eq ?_
    change 0 + paying.pay + paying.change + paying.fee = paying.sum
    rw [UInt64.zero_add, UInt64.add_assoc, UInt64.add_comm paying.change, ← UInt64.add_assoc,
      Paying.change, UInt64.add_comm, UInt64.sub_add_cancel]
  · change 0 + paying.pay + paying.fee ≤ paying.sum
    rwa [UInt64.zero_add]

/-- A payment needs something. -/
theorem Paying.needs (paying : Paying desk src dst amount feeText sent) : paying.sum ≠ 0 := by
  intro none
  have covers := UInt64.le_iff_toNat_le.mp (UInt64.not_lt.mp paying.covers)
  have fits := UInt64.le_iff_toNat_le.mp (UInt64.not_lt.mp paying.fits)
  have positive := UInt64.pos_iff_ne_zero.mpr (parseAmount_pos paying.paid).1
  have positiveNat := UInt64.lt_iff_toNat_lt.mp positive
  have room := UInt64.toNat_sub_of_le uint64Max paying.fee (UInt64.le_iff_toNat_le.mpr
    (Nat.le_of_lt_succ paying.fee.toNat_lt))
  have limit : uint64Max.toNat = 2 ^ 64 - 1 := rfl
  rw [none, UInt64.toNat_add] at covers
  rw [UInt64.toNat_zero] at covers positiveNat
  omega

/-- The coins of a payment are spent, balanced and signed. -/
theorem Serves.passes (serves : Serves host moment node desk) (steady : Steady node)
    (paying : Paying desk src dst amount feeText sent)
    (opens : Opens host node.wallets paying.source paying.key) {signature : Text}
    (made : paying.key.sign sent.payload = .ok signature) (names : NameTable) (staged : FlagBook) :
    let tx := planned host paying.tx paying.chosen paying.key.publicHex signature
    signPayload tx = sent.payload →
      tx.inputs ≠ [] ∧ (∀ input ∈ tx.inputs, spentBy (mempoolTxs host moment node) input = false) ∧
      TxPassed host { node with names := names } true node.nextHeight (mempoolTxs host moment node)
        staged names tx names staged := by
  intro tx payload
  have among : ∀ coin ∈ desk.order.sort (paying.listed.filter fun coin =>
      !paying.reserved.contains (coin.txid, coin.vout)),
      Available node.storage.utxo (mempoolTxs host moment node) node.nextHeight paying.source
        coin := by
    intro coin sorted
    obtain ⟨listed, unreserved⟩ := List.mem_filter.mp ((desk.order.sort_perm _).mem_iff.mp sorted)
    refine serves.available steady paying listed fun reserved => ?_
    rw [List.contains_iff_mem.mpr reserved] at unreserved
    cases unreserved
  obtain ⟨more, rfl, taken, summed⟩ := takeCoins_sums among paying.took paying.key.publicHex
    signature
  have spends : tx.inputs = paying.chosen.map (spend paying.key.publicHex signature) := rfl
  have each : ∀ input ∈ tx.inputs, ∃ coin,
      Available node.storage.utxo (mempoolTxs host moment node) node.nextHeight paying.source coin ∧
        input = spend paying.key.publicHex signature coin := by
    intro input listed
    rw [spends] at listed
    obtain ⟨coin, chosen, same⟩ := List.mem_map.mp listed
    exact ⟨coin, among coin (taken coin chosen), same.symm⟩
  have spends : tx.inputs ≠ [] := by
    intro none
    have empty : paying.chosen.map (spend paying.key.publicHex signature) = [] := none
    rw [empty] at summed
    exact paying.needs (Except.ok.inj summed).symm
  refine ⟨spends, fun input listed => ?_, ?_, ?_, rfl, rfl, rfl⟩
  · obtain ⟨coin, available, rfl⟩ := each input listed
    exact available.unspentBy _ _
  · refine checkSpendable_ok.mpr ⟨spends, (paying.plan (serves.scaled steady)).fee.2, paying.sum,
      summed, fun other => absurd rfl other, fun _ => ?_⟩
    change sumOutputs paying.tx.outputs + paying.fee + 0 ≤ paying.sum + 0
    rw [UInt64.add_zero, UInt64.add_zero]
    exact paying.balanced
  · unfold verifyInputSignatures
    rw [if_neg fun empty => spends (List.isEmpty_iff.mp empty), forM_eq_ok]
    intro input listed
    obtain ⟨coin, available, rfl⟩ := each input listed
    rw [payload]
    exact verifyInput_opened opens available made

/-- A later call walks the pending transactions that the wallet was shown. -/
theorem mempoolTxs_refreshed (walked : later.listing node.storage.mempool =
      moment.listing node.storage.mempool) (names : NameTable) :
    mempoolTxs host later { node with names := names } = mempoolTxs host moment node := by
  have same : mempoolTransactions later node.storage = mempoolTransactions moment node.storage := by
    rw [mempoolTransactions, mempoolTransactions, walked]
  rw [mempoolTxs, mempoolTxs, ← same]
  rfl

/-- A payment is sent as an object. -/
theorem Paying.object (paying : Paying desk src dst amount feeText sent) :
    ∃ members, sent.tx = .object members := by
  have signed : signTx paying.key (plannedJson paying.tx paying.chosen) = .ok sent := paying.signed
  obtain ⟨_, _, _, doc⟩ := signed_planned signed
  rw [doc]
  exact ⟨_, rfl⟩

/-- A payment is read by the node as a transaction that passes its checks. -/
theorem Serves.accepts (serves : Serves host moment node desk) (steady : Steady node)
    (paying : Paying desk src dst amount feeText sent)
    (opens : Opens host node.wallets paying.source paying.key)
    (walked : later.listing node.storage.mempool = moment.listing node.storage.mempool)
    (short : ShortOutputs sent.tx) (small : sent.tx.dumpSize ≤ kMaxTxJsonBytes) (reads : Nat) :
    ∃ tx, parseUserTx host sent.tx node.nextHeight = .ok tx ∧ signPayload tx = sent.payload ∧
      tx.outputs = paying.tx.outputs ∧ (node.storage.hasTransaction tx.txid = false →
        ∃ names flags, rpcSendtransaction host later (Node.refreshed^[reads + 1] node) sent.tx =
          admitTx host later { node with names := names } flags tx ∧ tx.reg = false) := by
  have plan := paying.plan (serves.scaled steady)
  have signed : signTx paying.key (plannedJson paying.tx paying.chosen) = .ok sent := paying.signed
  obtain ⟨signature, made, parses, payload⟩ := @Plan.parses host _ _ _ _ _ plan signed
    ((shortOutputs_iff signed).mp short) small
  refine ⟨_, parses, payload, rfl, fun fresh => ?_⟩
  have bindings := bindings_refreshed node reads
  obtain ⟨names, same⟩ := refreshed_iterate node (reads + 1)
  rw [same] at bindings ⊢
  obtain ⟨spending, unspent, passed⟩ := serves.passes steady paying opens made names
    (stagedFlags host moment node) payload
  obtain ⟨members, whole⟩ := paying.object
  have asked : asObjectParam host sent.tx = .object members := by
    rw [whole]
    rfl
  have resolved : names.resolveOutputNames host
      (planned host paying.tx paying.chosen paying.key.publicHex signature) =
      planned host paying.tx paying.chosen paying.key.publicHex signature :=
    serves.resolveOutputs steady paying bindings rfl
  have offers : Offers host { node with names := names } sent.tx
      (planned host paying.tx paying.chosen paying.key.publicHex signature) :=
    ⟨⟨members, _, asked, whole ▸ parses, resolved.symm⟩, fresh⟩
  have pending : mempoolTxs host later { node with names := names } = mempoolTxs host moment node :=
    mempoolTxs_refreshed walked names
  have checked : checkPending host { node with names := names } node.nextHeight
      (mempoolTxs host moment node) (stagedFlags host moment node)
      (planned host paying.tx paying.chosen paying.key.publicHex signature) =
      (names, .ok (stagedFlags host moment node)) := by
    rw [checkPending, checkTx_ok.mpr passed]
    dsimp only
    refine if_neg fun spent => ?_
    obtain ⟨input, listed, spentInput⟩ := List.any_eq_true.mp spent
    rw [unspent input listed] at spentInput
    cases spentInput
  refine ⟨names, stagedFlags host moment node, ?_, rfl⟩
  have staged : stagedFlags host later { node with names := names } =
      stagedFlags host moment node := by
    rw [stagedFlags, pending]
    rfl
  have height : Node.nextHeight { node with names := names } = node.nextHeight := rfl
  rw [rpcSendtransaction_offers offers, if_neg fun empty => spending (List.isEmpty_iff.mp empty),
    pending, staged, height, checked]

/-- A call that is accepted offers a transaction. -/
theorem offers_of_accepted {params : Json} {id : Digest}
    (accepted : (rpcSendtransaction host later node params).2 = .ok id) :
    ∃ tx, Offers host node params tx := by
  unfold rpcSendtransaction at accepted
  split at accepted
  next members object =>
    split at accepted
    · cases accepted
    next parsed parses =>
      dsimp only at accepted
      split at accepted
      · cases accepted
      next fresh =>
        exact ⟨_, ⟨members, parsed, object, parses, rfl⟩, Bool.not_eq_true _ ▸ fresh⟩
  · cases accepted

/-- A transaction pays, first of all, the amount that was given to the address that was given. -/
def Pays (desk : Desk) (dst amount : Text) (tx : Tx) : Prop :=
  ∃ money pay pi target, loadMoney desk = .ok money ∧ parseAmount amount money = .ok (pay, pi) ∧
    addressOf desk dst = .ok target ∧ tx.outputs.head? = some ⟨pay, target⟩

/-- What every run keeps. -/
theorem steady_of_run {wallets : Wallets} {calls : List Call} {log : List (Accepted host)}
    (ran : (nodeMachine host).Runs (fun state call => Stable.storesBinary host state call = false)
      (Node.empty wallets) calls log node) (free : CollisionFree (logTxs log)) : Steady node where
  names := (Grounded.run ran).names
  next := by
    rw [← Storage.nextHeight_chainIndex]
    exact (Grounded.run ran).sourced.traced.shaped.nextHeight_eq
  born point rec found := by
    obtain ⟨book, booked⟩ := (Grounded.run ran).booked free
    obtain ⟨entry, entryIn, created⟩ := booked.journal.coin_created found
    obtain ⟨posted, listed, rfl⟩ := List.mem_map.mp entryIn
    obtain ⟨low, accepted, _, height, _⟩ := booked.source posted listed
    rw [bookEntry, entryOf_created, txCredits] at created
    obtain ⟨_, _, same⟩ := List.mem_map.mp created
    have born : rec.height = posted.2 := by rw [← (Prod.mk.inj same).2]
    rw [born]
    exact ⟨height ▸ accepted.height_pos, low⟩

/-- An accepted payment is short, small and new. -/
theorem Serves.conditions (serves : Serves host moment node desk) (steady : Steady node)
    (paying : Paying desk src dst amount feeText sent)
    (opens : Opens host node.wallets paying.source paying.key)
    (walked : later.listing node.storage.mempool = moment.listing node.storage.mempool)
    {reads : Nat} {id : Digest} (accepted :
      (rpcSendtransaction host later (Node.refreshed^[reads + 1] node) sent.tx).2 = .ok id) :
    ShortOutputs sent.tx ∧ sent.tx.dumpSize ≤ kMaxTxJsonBytes ∧
      ∀ tx, parseUserTx host sent.tx node.nextHeight = .ok tx →
        node.storage.hasTransaction tx.txid = false := by
  obtain ⟨tx, ⟨members, parsed, object, parses, resolved⟩, fresh⟩ := offers_of_accepted accepted
  have bindings := bindings_refreshed node reads
  obtain ⟨names, same⟩ := refreshed_iterate node (reads + 1)
  rw [same] at bindings resolved fresh parses
  obtain ⟨whole, form⟩ := paying.object
  rw [form] at object
  cases object
  have read : parseUserTx host sent.tx node.nextHeight = .ok parsed := form ▸ parses
  have short := shortOutputs_of_read read
  have small := (parseUserTx_ok read).2.2
  refine ⟨short, small, fun other again => ?_⟩
  rw [read] at again
  cases again
  obtain ⟨own, ownRead, _, outputs, _⟩ :=
    serves.accepts steady paying opens walked short small reads
  rw [read] at ownRead
  cases ownRead
  rw [serves.resolveOutputs steady paying bindings outputs] at resolved
  rw [← resolved]
  exact fresh

/-- What is left behind by the admission of a transaction that registers nothing. -/
theorem admitTx_plain (node : Node) (flags : FlagBook) {tx : Tx} (plain : tx.reg = false) :
    (admitTx host moment node flags tx).2 = .ok tx.txid ∧
      (admitTx host moment node flags tx).1.storage.mempool =
        node.storage.mempool.insert tx.txid (pendingEntry tx) := by
  unfold admitTx
  rw [if_pos (by simp [plain])]
  exact ⟨rfl, rfl⟩

/-- **Payments.** After every run, a payment that the wallet makes from the answers of the
node is accepted by it exactly when its addresses are short, its document is small and it is
not pending already; it is then pending as what was signed, and pays what was asked. -/
theorem payment_accepted_iff {wallets : Wallets} {calls : List Call} {log : List (Accepted host)}
    (ran : (nodeMachine host).Runs (fun state call => Stable.storesBinary host state call = false)
      (Node.empty wallets) calls log node)
    (free : CollisionFree (logTxs log)) (serves : Serves host moment node desk)
    (opens : ∀ address key, desk.loadKey address = .ok key → Opens host node.wallets address key)
    (walked : later.listing node.storage.mempool = moment.listing node.storage.mempool)
    (sends : cmdSend desk src dst amount feeText = .ok sent) (reads : Nat) :
    ((∃ id, (rpcSendtransaction host later (Node.refreshed^[reads + 1] node) sent.tx).2 = .ok id) ↔
        ShortOutputs sent.tx ∧ sent.tx.dumpSize ≤ kMaxTxJsonBytes ∧
          ∀ tx, parseUserTx host sent.tx node.nextHeight = .ok tx →
            node.storage.hasTransaction tx.txid = false) ∧
      ∀ id, (rpcSendtransaction host later (Node.refreshed^[reads + 1] node) sent.tx).2 = .ok id →
        ∃ tx, tx.txid = id ∧ signPayload tx = sent.payload ∧ Pays desk dst amount tx ∧
          (rpcSendtransaction host later (Node.refreshed^[reads + 1] node)
            sent.tx).1.storage.mempool = node.storage.mempool.insert id (pendingEntry tx) := by
  have steady := steady_of_run ran free
  obtain ⟨paying⟩ := cmdSend_paying sends
  have opened := opens _ _ paying.loadedKey
  have admitted : ShortOutputs sent.tx → sent.tx.dumpSize ≤ kMaxTxJsonBytes →
      (∀ tx, parseUserTx host sent.tx node.nextHeight = .ok tx →
        node.storage.hasTransaction tx.txid = false) →
      ∃ tx, signPayload tx = sent.payload ∧ tx.outputs = paying.tx.outputs ∧
        (rpcSendtransaction host later (Node.refreshed^[reads + 1] node) sent.tx).2 = .ok tx.txid ∧
        (rpcSendtransaction host later (Node.refreshed^[reads + 1] node)
          sent.tx).1.storage.mempool = node.storage.mempool.insert tx.txid (pendingEntry tx) := by
    intro short small fresh
    obtain ⟨tx, read, payload, outputs, accepts⟩ :=
      serves.accepts steady paying opened walked short small reads
    obtain ⟨names, flags, called, plain⟩ := accepts (fresh tx read)
    obtain ⟨answer, pool⟩ := @admitTx_plain host later { node with names := names } flags tx plain
    rw [called]
    exact ⟨tx, payload, outputs, answer, pool⟩
  refine ⟨⟨?_, ?_⟩, ?_⟩
  · rintro ⟨id, accepted⟩
    exact serves.conditions steady paying opened walked accepted
  · rintro ⟨short, small, fresh⟩
    obtain ⟨tx, _, _, answer, _⟩ := admitted short small fresh
    exact ⟨tx.txid, answer⟩
  · intro id accepted
    obtain ⟨short, small, fresh⟩ := serves.conditions steady paying opened walked accepted
    obtain ⟨tx, payload, outputs, answer, pool⟩ := admitted short small fresh
    obtain rfl := Except.ok.inj (accepted.symm.trans answer)
    refine ⟨tx, rfl, payload, ?_, pool⟩
    refine ⟨paying.money, paying.pay, paying.payPi, paying.target, paying.loaded, paying.paid,
      paying.resolvedTarget, ?_⟩
    rw [outputs]
    rfl

end Answers

/-! ## A payment of the first miner -/

/-- What a payment of 0.005 314ST from the first coinbase signs. -/
def payerDraft : Json :=
  draftTx 1 [⟨openingTxid, 0, 216⟩] [⟨5, "bob".toList⟩, ⟨210, sampleAddress⟩] []

/-- Its signature by the sample key. -/
def payerSignature : Bytes :=
  [0x36, 0x5b, 0x94, 0xdf, 0xfb, 0xf0, 0x95, 0xc3, 0x83, 0xf8, 0xef, 0xdb, 0xbd, 0x10, 0x4a, 0x6d,
   0x45, 0x59, 0x51, 0x8a, 0x89, 0x65, 0x4f, 0xd6, 0xb6, 0x9d, 0x44, 0x82, 0xc2, 0xec, 0xdf, 0x6a,
   0xf6, 0xfb, 0x95, 0xbf, 0x05, 0x2e, 0xe8, 0xdd, 0x59, 0x7a, 0xce, 0x21, 0x24, 0xd5, 0x5a, 0xdd,
   0xf8, 0xaa, 0x59, 0xe8, 0xaa, 0x23, 0x77, 0xc2, 0xaf, 0x03, 0x34, 0x3f, 0xff, 0xc0, 0x71, 0x0f]

/-- A host that knows the signature. -/
def payerHost : Host :=
  Host.ofTables [(samplePublicKey, payerSignature, spendPayload payerDraft)] []

/-- The node after the first block. -/
def payerNode : Node :=
  connectBlock payerHost sampleMoment false (Node.empty fun _ => none) openingChecked

/-- The keys of its two coins, in their order. -/
theorem payerNode_sorted : (payerNode.storage.utxo.keys.image utxoKey).sort =
    [utxoKey (openingTxid, 0), utxoKey (openingTxid, 1)] := by
  have keys : payerNode.storage.utxo.keys.image utxoKey =
      [utxoKey (openingTxid, 0), utxoKey (openingTxid, 1)].toFinset := by
    decide +kernel
  rw [keys]
  exact (List.toFinset_sort _ (by decide +kernel)).mpr (by decide +kernel)

/-- The listed coin of the miner. -/
theorem payerNode_lists : payerNode.storage.listUtxos sampleAddress =
    [⟨openingTxid, 0, 216, sampleAddress, 1⟩] := by
  rw [Storage.listUtxos, payerNode_sorted]
  decide +kernel

/-- The sample key, which signs one text. -/
def payerKey : Key where
  publicHex := samplePublicKey.flatMap hexByte
  sign message :=
    if message = spendPayload payerDraft then .ok (payerSignature.flatMap hexByte)
    else .error "signature invalid".toList

/-- The desk of the first miner. -/
def payerDesk : Desk where
  info := rpcGetblockchaininfo payerNode
  nameLookup text := .ok (lookedUp payerHost payerNode text)
  listUnspent address :=
    if address = sampleAddress then .ok [⟨openingTxid, 0, 216⟩]
    else listedCoins ⟨3000, 1⟩ (unspentRows
      (payerNode.rpcListunspent payerHost (.ofMembers [("address", .string address)])).2)
  reserved := .ok (spentOutpoints (Node.rpcGetmempool payerHost sampleMoment payerNode))
  coinsFor _ _ := .ok []
  listFlag _ := .ok none
  loadKey address := if address = sampleAddress then .ok payerKey else .error []
  walletKey _ := .error []
  defaultAddress := []
  walletWithPubkey _ := []
  order := sortedCoins

theorem payerDesk_serves : Serves payerHost sampleMoment payerNode payerDesk where
  info := rfl
  names _ := ⟨0, rfl⟩
  coins address := by
    refine ⟨0, fun money loaded => ?_⟩
    have known : loadMoney payerDesk = .ok ⟨3000, 1⟩ := by
      rw [loadMoney, payerDesk, rpcGetblockchaininfo, Json.unsigned?, Json.unsigned?,
        Json.get?_ofMembers, Json.get?_ofMembers]
      rfl
    rw [known] at loaded
    cases loaded
    by_cases own : address = sampleAddress
    · subst own
      have asked : (payerNode.refreshed.names.unspentAddress sampleAddress).1 = sampleAddress := by
        decide +kernel
      rw [unspentRows_rpcListunspent, Function.iterate_zero_apply, asked, payerNode_lists]
      simp only [readRow_unspentRow]
      have listed : payerDesk.listUnspent sampleAddress = .ok [⟨openingTxid, 0, 216⟩] := by
        simp only [payerDesk, if_true]
      rw [listed]
      rfl
    · exact if_neg own
  pending := rfl

theorem payerKey_opens (address : Text) (key : Key) (loaded : payerDesk.loadKey address = .ok key) :
    Opens payerHost (fun _ => none) address key := by
  change (if address = sampleAddress then Except.ok payerKey else .error []) = .ok key at loaded
  split at loaded
  next same =>
    cases loaded
    subst same
    refine ⟨.inr ⟨by decide +kernel, by decide +kernel⟩, samplePublicKey, by decide +kernel, rfl,
      fun _ => by decide +kernel, fun message signature made => ?_⟩
    unfold payerKey at made
    dsimp only at made
    split at made
    next signed =>
      cases made
      subst signed
      exact ⟨by decide +kernel, payerSignature, by decide +kernel, by decide +kernel⟩
    · cases made
  · cases loaded

/-- The payment is made, with a small document and short addresses. -/
theorem payer_sends : ∃ sent,
    cmdSend payerDesk sampleAddress "bob".toList "0.005".toList [] = .ok sent ∧
    sent.tx.dumpSize ≤ 1000 ∧ ShortOutputs sent.tx := by
  have evaluated : ((cmdSend payerDesk sampleAddress "bob".toList "0.005".toList []).toOption.any
      fun sent => decide (sent.tx.dumpSize ≤ 1000) && (items sent.tx "outputs").all fun output =>
        (output.text? "address").all fun address => decide (address.size ≤ 256)) = true := by
    decide +kernel
  cases ran : cmdSend payerDesk sampleAddress "bob".toList "0.005".toList [] with
  | error reason =>
      rw [ran] at evaluated
      cases evaluated
  | ok sent =>
      rw [ran] at evaluated
      obtain ⟨small, short⟩ := Bool.and_eq_true_iff.mp evaluated
      refine ⟨sent, rfl, of_decide_eq_true small, fun output listed address text => ?_⟩
      have fits := List.all_eq_true.mp short output listed
      rw [text] at fits
      exact of_decide_eq_true fits

/-- The first miner pays. -/
theorem payment_accepted_iff_payer : ∃ sent,
    cmdSend payerDesk sampleAddress "bob".toList "0.005".toList [] = .ok sent ∧
      ∃ id, (rpcSendtransaction payerHost sampleMoment (openedNode payerHost).refreshed sent.tx).2 =
        .ok id := by
  obtain ⟨sent, sends, small, short⟩ := payer_sends
  obtain ⟨accepted, only, checked, opened⟩ : ∃ accepted : Accepted payerHost,
      openingLog payerHost = [accepted] ∧ accepted.checked = openingChecked ∧
        openedNode payerHost = payerNode :=
    opening_connected [(samplePublicKey, payerSignature, spendPayload payerDraft)] []
  have run := openedNode_run payerHost
    (fun state call => Stable.storesBinary payerHost state call = false) rfl
  have free : CollisionFree (logTxs (openingLog payerHost)) := by
    have none : accepted.txs = [] := by
      rw [Accepted.txs, checked]
      rfl
    rw [only, logTxs, List.flatMap_singleton, none]
    intro first firstIn second secondIn _
    rw [List.mem_singleton.mp firstIn, List.mem_singleton.mp secondIn]
  rw [opened] at run ⊢
  have empty : payerNode.storage.mempool.entries = [] := by
    decide +kernel
  have unpooled : ∀ id, payerNode.storage.hasTransaction id = false := fun id => by
    rw [Storage.hasTransaction, AList.lookup, empty]
    rfl
  exact ⟨sent, sends,
    (payment_accepted_iff run free payerDesk_serves payerKey_opens rfl sends 0).1.mpr
      ⟨short, Nat.le_trans small (by decide), fun tx _ => unpooled tx.txid⟩⟩

end Wallet

end PiSecure
