import PiSecure.General.Ledger
import PiSecure.Theory.Canonical
import PiSecure.Theory.Stored

/-! # The transactions of a block as ledger entries

A transaction of a block is an entry of the ledger of coins. What the
transaction loop checks is what lets the entries of the block follow each other,
so the update of the coins that comes after it never fails halfway.
-/

namespace PiSecure

/-! ## Entries -/

/-- A transaction at a height as an entry of the ledger. -/
def entryOf (tx : Tx) (height : Nat) : Ledger.Entry Digest UInt32 UtxoRecord where
  id := tx.txid
  spends := tx.inputs.map TxIn.outpoint
  outputs := tx.outputs.zipIdx.map fun (output, vout) =>
    (UInt32.ofNat vout, ⟨output.value, output.address, height⟩)

theorem entryOf_created (tx : Tx) (height : Nat) :
    (entryOf tx height).created = txCredits tx.txid tx.outputs height := by
  simp only [entryOf, Ledger.Entry.created, txCredits, List.map_map, Function.comp_def]

/-- Applying a transaction to the coins is posting its entry. -/
theorem applyTxUtxos_eq (utxo : UtxoSet) (tx : Tx) (height : Nat) :
    applyTxUtxos utxo tx height = Ledger.post utxo (entryOf tx height) := by
  rw [Ledger.post, entryOf_created]
  rfl

/-- Applying the coinbase to the coins is posting its entry. -/
theorem applyCoinbaseUtxos_eq (utxo : UtxoSet) {cb : Tx} (height : Nat) (inputs : cb.inputs = []) :
    applyCoinbaseUtxos utxo (txCredits cb.txid cb.outputs height) =
      Ledger.post utxo (entryOf cb height) := by
  have spends : (entryOf cb height).spends = [] := by
    rw [entryOf, inputs]
    rfl
  rw [Ledger.post, entryOf_created, spends, applyCoinbaseUtxos]
  cases txCredits cb.txid cb.outputs height with
  | nil =>
      have settled : Ledger.settle utxo ([] : List Outpoint) [] = some utxo :=
        Ledger.settle_eq_some.mpr
          ⟨List.forall_mem_nil _, List.forall_mem_nil _, rfl⟩
      exact settled.symm
  | cons credit rest => rfl

/-- The output at an index is a point of the entry. -/
theorem mem_points_entryOf {tx : Tx} {vout : UInt32} (below : vout.toNat < tx.outputs.length)
    (height : Nat) : (tx.txid, vout) ∈ (entryOf tx height).points := by
  refine List.mem_map.mpr ⟨(vout, ⟨tx.outputs[vout.toNat].value,
    tx.outputs[vout.toNat].address, height⟩), ?_, rfl⟩
  refine List.mem_map.mpr ⟨(tx.outputs[vout.toNat], vout.toNat), ?_, ?_⟩
  · exact List.mk_mem_zipIdx_iff_getElem?.mpr (List.getElem?_eq_getElem below)
  · simp only [UInt32.ofNat_toNat]

/-- The entries of a block: its coinbase and its transactions. -/
def blockEntries (cb : Tx) (txs : List Tx) (height : Nat) :
    List (Ledger.Entry Digest UInt32 UtxoRecord) :=
  entryOf cb height :: txs.map fun tx => entryOf tx height

/-- When the entries of a block can be posted, connecting the block does it. -/
theorem confirmUtxos_eq {utxo next : UtxoSet} {cb : Tx} {txs : List Tx} {height : Nat}
    (inputs : cb.inputs = [])
    (posted : Ledger.postAll utxo (blockEntries cb txs height) = some next) :
    confirmUtxos (coinbaseUtxos utxo cb height) txs height = next := by
  obtain ⟨paid, coinbase, confirmed⟩ := Option.bind_eq_some_iff.mp posted
  rw [coinbaseUtxos, applyCoinbaseUtxos_eq utxo height inputs, coinbase, Option.getD_some]
  clear posted coinbase
  induction txs generalizing paid with
  | nil => exact Option.some.inj confirmed
  | cons tx rest ih =>
      obtain ⟨middle, first, later⟩ := Option.bind_eq_some_iff.mp confirmed
      rw [confirmUtxos, List.foldl_cons, applyTxUtxos_eq, first, Option.getD_some]
      exact ih middle later

/-! ## What the loop checks -/

section Loop

/-- An earlier transaction spends an input when the outpoint is among its inputs. -/
theorem spentBy_eq_false {prior : List Tx} {input : TxIn} :
    spentBy prior input = false ↔
      ∀ earlier ∈ prior, input.outpoint ∉ earlier.inputs.map TxIn.outpoint := by
  have same : ∀ spent : TxIn, (spent.vout == input.vout && spent.prev == input.prev) = true ↔
      spent.outpoint = input.outpoint := by
    intro spent
    rw [Bool.and_eq_true, beq_iff_eq, beq_iff_eq, TxIn.outpoint, TxIn.outpoint, Prod.mk.injEq,
      and_comm]
  rw [← Bool.not_eq_true, spentBy, List.any_eq_true]
  constructor
  · intro unspent earlier member spent
    obtain ⟨other, listed, named⟩ := List.mem_map.mp spent
    exact unspent ⟨earlier, member, List.any_eq_true.mpr ⟨other, listed, (same other).mpr named⟩⟩
  · rintro unspent ⟨earlier, member, spent⟩
    obtain ⟨other, listed, matched⟩ := List.any_eq_true.mp spent
    exact unspent earlier member (List.mem_map.mpr ⟨other, listed, (same other).mp matched⟩)

/-- An outpoint that is found is a coin or an output of an earlier transaction. -/
theorem findOutpoint_some {utxo : UtxoSet} {prior : List Tx} {prev : Digest} {vout : UInt32}
    {spendHeight : Nat} {found : FoundOutput}
    (located : findOutpoint utxo prior prev vout spendHeight = some found) :
    (∃ rec, utxo.lookup (prev, vout) = some rec ∧
      found = ⟨rec.value, rec.address, if rec.height = 0 then spendHeight else rec.height⟩) ∨
    (utxo.lookup (prev, vout) = none ∧ ∃ tx ∈ prior, tx.txid = prev ∧
      ∃ below : vout.toNat < tx.outputs.length,
        found = ⟨tx.outputs[vout.toNat].value, tx.outputs[vout.toNat].address, spendHeight⟩) := by
  unfold findOutpoint at located
  split at located
  next rec present =>
    cases located
    exact .inl ⟨rec, present, rfl⟩
  next absent =>
    split at located
    next tx picked =>
      have matched := List.find?_some picked
      rw [decide_eq_true_eq] at matched
      rw [List.getElem?_eq_getElem matched.2] at located
      cases located
      exact .inr ⟨absent, tx, List.mem_of_find?_eq_some picked, matched.1, matched.2, rfl⟩
    · cases located

/-- Every input that is summed is unspent and found, and its worth is counted. -/
theorem sumInputs_ok {utxo : UtxoSet} {prior : List Tx} {spendHeight : Nat} {inputs : List TxIn}
    {total sum : UInt64} (summed : sumInputs utxo prior spendHeight inputs total = .ok sum) :
    ∀ input ∈ inputs, spentBy prior input = false ∧
      ∃ found worth, findOutpoint utxo prior input.prev input.vout spendHeight = some found ∧
        worthAt spendHeight found = some worth := by
  induction inputs generalizing total with
  | nil => exact fun _ impossible => nomatch impossible
  | cons first rest ih =>
      unfold sumInputs at summed
      split at summed
      · cases summed
      next unspent =>
        split at summed
        · cases summed
        next found located =>
          split at summed
          · cases summed
          next worth counted =>
            split at summed
            · cases summed
            · exact List.forall_mem_cons.mpr
                ⟨⟨Bool.eq_false_iff.mpr unspent, found, worth, located, counted⟩, ih summed⟩

/-- What an outpoint counts for in the balance at a height; zero when there is
no such output. -/
def pointWorth (utxo : UtxoSet) (prior : List Tx) (height : Nat) (point : Outpoint) : Nat :=
  (((findOutpoint utxo prior point.1 point.2 height).bind (worthAt height)).map UInt64.toNat).getD 0

/-- The sum of the inputs counts an outpoint as often as it is listed, and does
not wrap. -/
theorem sumInputs_total {utxo : UtxoSet} {prior : List Tx} {spendHeight : Nat} {inputs : List TxIn}
    {total sum : UInt64} (summed : sumInputs utxo prior spendHeight inputs total = .ok sum) :
    sum.toNat = total.toNat +
      ((inputs.map TxIn.outpoint).map (pointWorth utxo prior spendHeight)).sum := by
  induction inputs generalizing total with
  | nil =>
      cases summed
      rfl
  | cons first rest ih =>
      unfold sumInputs at summed
      split at summed
      · cases summed
      · split at summed
        · cases summed
        next found located =>
          split at summed
          · cases summed
          next worth counted =>
            split at summed
            · cases summed
            next fits =>
              have worthEq : pointWorth utxo prior spendHeight first.outpoint = worth.toNat := by
                simp only [pointWorth, TxIn.outpoint, located, Option.bind_some, counted,
                  Option.map_some, Option.getD_some]
              have added : (total + worth).toNat = total.toNat + worth.toNat := by
                have bound := UInt64.le_iff_toNat_le.mp (UInt64.not_lt.mp fits)
                have limit : uint64Max.toNat = 2 ^ 64 - 1 := rfl
                have small := worth.toNat_lt
                rw [UInt64.toNat_sub_of_le _ _ (UInt64.le_iff_toNat_le.mpr (by omega))] at bound
                rw [UInt64.toNat_add]
                exact Nat.mod_eq_of_lt (by omega)
              rw [ih summed, added, List.map_cons, List.map_cons, List.sum_cons, worthEq,
                Nat.add_assoc]

/-- What `check_spendable` means: inputs that are there, and a balance. -/
theorem checkSpendable_ok {utxo : UtxoSet} {tx : Tx} {spendHeight : Nat} {prior : List Tx}
    {release : UInt64} :
    checkSpendable utxo tx spendHeight prior release = .ok () ↔
      tx.inputs ≠ [] ∧ minFeeForHeight spendHeight ≤ tx.fee ∧
      ∃ total, sumInputs utxo prior spendHeight tx.inputs 0 = .ok total ∧
        (tx.flagKind ≠ .none → total + release = sumOutputs tx.outputs + tx.fee + tx.escrowLock) ∧
        (tx.flagKind = .none → sumOutputs tx.outputs + tx.fee + tx.escrowLock ≤
          total + release) := by
  unfold checkSpendable
  by_cases missing : tx.inputs = []
  · rw [if_pos (List.isEmpty_iff.mpr missing)]
    exact ⟨fun failed => (nomatch failed), fun all => absurd missing all.1⟩
  rw [if_neg (fun empty => missing (List.isEmpty_iff.mp empty))]
  by_cases low : tx.fee < minFeeForHeight spendHeight
  · rw [if_pos low]
    exact ⟨fun failed => (nomatch failed), fun all => absurd all.2.1 (UInt64.not_le.mpr low)⟩
  rw [if_neg low]
  cases summed : sumInputs utxo prior spendHeight tx.inputs 0 with
  | error reason =>
      refine ⟨fun failed => (nomatch failed), ?_⟩
      rintro ⟨_, _, total, impossible, _⟩
      cases impossible
  | ok total =>
      dsimp only
      by_cases plain : tx.flagKind = .none
      · rw [if_neg (fun other => other plain)]
        by_cases short : sumOutputs tx.outputs + tx.fee + tx.escrowLock > total + release
        · rw [if_pos short]
          refine ⟨fun failed => (nomatch failed), ?_⟩
          rintro ⟨_, _, sum, same, _, enough⟩
          cases same
          exact absurd short (UInt64.not_lt.mpr (enough plain))
        · rw [if_neg short]
          exact ⟨fun _ => ⟨missing, UInt64.not_lt.mp low, total, rfl,
            fun other => absurd plain other, fun _ => UInt64.not_lt.mp short⟩, fun _ => rfl⟩
      · rw [if_pos plain]
        by_cases balanced : total + release = sumOutputs tx.outputs + tx.fee + tx.escrowLock
        · rw [if_neg (fun other => other balanced)]
          exact ⟨fun _ => ⟨missing, UInt64.not_lt.mp low, total, rfl, fun _ => balanced,
            fun other => absurd other plain⟩, fun _ => rfl⟩
        · rw [if_pos balanced]
          refine ⟨fun failed => (nomatch failed), ?_⟩
          rintro ⟨_, _, sum, same, equal, _⟩
          cases same
          exact absurd (equal plain) balanced

variable {host : Host} {node : Node} {localPolicy : Bool} {height : Nat}

/-- What a transaction of a block passed, on top of the ones before it. -/
structure TxPassed (host : Host) (node : Node) (localPolicy : Bool) (height : Nat)
    (prior : List Tx) (staged : FlagBook) (names : NameTable) (tx : Tx) (next : NameTable)
    (flags : FlagBook) : Prop where
  spendable : checkSpendable node.storage.utxo tx height prior (claimRelease tx staged prior) =
    .ok ()
  signed : verifyInputSignatures host node.wallets node.storage.utxo tx localPolicy prior = .ok ()
  registered : admitRegister host node.namesFile node.storage.utxo tx localPolicy prior names =
    (next, .ok ())
  paying : flagOutputsOk host node.storage.utxo tx (staged.find tx.flagId) prior = .ok ()
  flagged : applyFlagTx staged tx height = .ok flags

theorem checkTx_ok {prior : List Tx} {staged flags : FlagBook} {names next : NameTable} {tx : Tx} :
    checkTx host node localPolicy height prior staged names tx = (next, .ok flags) ↔
      TxPassed host node localPolicy height prior staged names tx next flags := by
  constructor
  · intro passed
    unfold checkTx at passed
    dsimp only at passed
    split at passed
    · cases passed
    next spendable =>
      split at passed
      · cases passed
      next signed =>
        split at passed
        · cases passed
        next after registered =>
          split at passed
          · cases passed
          next paying =>
            obtain ⟨rfl, flagged⟩ := Prod.mk.inj passed
            exact ⟨spendable, signed, registered, paying, flagged⟩
  · rintro ⟨spendable, signed, registered, paying, flagged⟩
    unfold checkTx
    simp only [spendable, signed, registered, paying, flagged]

/-- The flag book after the flag operations of transactions. -/
def applyFlagTxs (book : FlagBook) (txs : List Tx) (height : Nat) : Except String FlagBook :=
  txs.foldlM (fun staged tx => applyFlagTx staged tx height) book

theorem applyFlagTxs_cons {book flags : FlagBook} {tx : Tx} {rest : List Tx} {height : Nat} :
    applyFlagTxs book (tx :: rest) height = .ok flags ↔
      ∃ staged, applyFlagTx book tx height = .ok staged ∧
        applyFlagTxs staged rest height = .ok flags := by
  rw [applyFlagTxs, List.foldlM_cons, bind_eq_ok]
  exact Iff.rfl

/-- Every transaction of an accepted list passed, on top of the ones before it. -/
theorem checkTxs_ok {txs prior : List Tx} {staged flags : FlagBook} {names final : NameTable}
    (passed : checkTxs host node localPolicy height txs prior staged names = (final, .ok flags)) :
    applyFlagTxs staged txs height = .ok flags ∧
      ∀ before tx after, txs = before ++ tx :: after →
        ∃ book named next booked, applyFlagTxs staged before height = .ok book ∧
          TxPassed host node localPolicy height (prior ++ before) book named tx next booked := by
  induction txs generalizing prior staged names with
  | nil =>
      cases passed
      exact ⟨rfl, fun before tx after split => by simp at split⟩
  | cons first rest ih =>
      rw [checkTxs] at passed
      split at passed
      · cases passed
      next next booked checked =>
        have firstPassed := checkTx_ok.mp checked
        obtain ⟨flagged, later⟩ := ih passed
        refine ⟨?_, ?_⟩
        · rw [applyFlagTxs, List.foldlM_cons, firstPassed.flagged]
          exact flagged
        · intro before tx after split
          cases before with
          | nil =>
              obtain ⟨rfl, rfl⟩ := List.cons.inj split
              rw [List.append_nil]
              exact ⟨staged, names, next, booked, rfl, firstPassed⟩
          | cons head others =>
              obtain ⟨rfl, rfl⟩ := List.cons.inj split
              obtain ⟨book, named, after', flags', flaggedBefore, txPassed⟩ :=
                later others tx after rfl
              refine ⟨book, named, after', flags', ?_, ?_⟩
              · rw [applyFlagTxs, List.foldlM_cons, firstPassed.flagged]
                exact flaggedBefore
              · rwa [List.append_assoc] at txPassed

end Loop

end PiSecure
