import PiSecure.Theory.Acceptance
import PiSecure.Theory.RoundTrip
import PiSecure.Theory.Spending

/-! # The coins come from connected blocks

The coins of a node are the balance of a journal: the coinbases and
transactions of connected blocks, each posted once under its own id. Connecting
a block posts its entries, a replay posts them again from nothing.
-/

namespace PiSecure

variable {host : Host}

/-! ## The transactions of connected blocks -/

/-- The transactions of connected blocks with their coinbases. -/
def logTxs (log : List (Accepted host)) : List Tx :=
  log.flatMap fun accepted => accepted.cb :: accepted.txs

theorem logTxs_append (log more : List (Accepted host)) :
    logTxs (log ++ more) = logTxs log ++ logTxs more :=
  List.flatMap_append

theorem mem_logTxs {log : List (Accepted host)} {tx : Tx} :
    tx ∈ logTxs log ↔ ∃ accepted ∈ log, tx = accepted.cb ∨ tx ∈ accepted.txs := by
  simp only [logTxs, List.mem_flatMap, List.mem_cons]

/-- Every connected block was checked with a sound name table. -/
def SoundLog (log : List (Accepted host)) : Prop :=
  ∀ accepted ∈ log, accepted.node.names.Sound

namespace Accepted

variable (accepted : Accepted host)

/-- What a coinbase is. -/
theorem cb_shape : accepted.cb.coinbase = true ∧ accepted.cb.height = accepted.height ∧
    accepted.cb.inputs = [] ∧ accepted.cb.txid = txidOf host accepted.cb ∧
    flagBytes accepted.cb ++ regBytes accepted.cb = [] := by
  rw [accepted.cb_eq]
  exact ⟨rfl, rfl, rfl, rfl, rfl⟩

/-- The transactions of an accepted block are parsed transactions. -/
theorem txs_parsed (sound : accepted.node.names.Sound) :
    ∀ tx ∈ accepted.txs, tx.Parsed host accepted.height := by
  intro tx member
  obtain ⟨payout, drafted⟩ := accepted.passes.drafted
  obtain ⟨item, parsed, parses, rfl⟩ := mem_readTxs drafted.txs member
  exact (parseUserTx_ok parses).1.resolve sound

/-- What the transaction at a place of an accepted block passed. -/
theorem tx_passed {before after : List Tx} {tx : Tx}
    (split : accepted.txs = before ++ tx :: after) :
    ∃ book names next flags,
      applyFlagTxs accepted.node.flags before accepted.height = .ok book ∧
      TxPassed host accepted.node accepted.localPolicy accepted.height (accepted.cb :: before) book
        names tx next flags :=
  (checkTxs_ok accepted.passes.txs).2 before tx after split

/-- A transaction of an accepted block spends something. -/
theorem inputs_ne {tx : Tx} (member : tx ∈ accepted.txs) : tx.inputs ≠ [] := by
  obtain ⟨before, after, split⟩ := List.append_of_mem member
  obtain ⟨_, _, _, _, _, passed⟩ := accepted.tx_passed split
  exact (checkSpendable_ok.mp passed.spendable).1

/-- A stored block is small enough for its output indices to fit in 32 bits. -/
theorem outputs_below {tx : Tx} (member : tx = accepted.cb ∨ tx ∈ accepted.txs) :
    tx.outputs.length < 2 ^ 32 := by
  have fits : accepted.stored.dumpSize ≤ 256 * 1024 := accepted.passes.fits
  rcases member with rfl | confirmed
  · have coinbase : (coinbaseBody accepted.checked.draft.shown accepted.height
        (emissionFor accepted.height (feeUnits accepted.txs)) accepted.cb
        accepted.checked.draft.cbOuts).dumpSize < accepted.stored.dumpSize :=
      Json.dumpSize_lt_of_get? (accepted.stored_get? "coinbase" _ rfl)
    obtain ⟨items, found, same⟩ := Option.bind_eq_some_iff.mp
      (coinbaseBody_outputs accepted.checked.draft.shown accepted.height
        (emissionFor accepted.height (feeUnits accepted.txs)) accepted.cb
        accepted.checked.draft.cbOuts)
    have outputs := Json.dumpSize_lt_of_get? found
    cases items with
    | array all =>
        cases same
        have length := Json.dumpSize_array
          ((accepted.checked.draft.cbOuts.filter fun out => out.units != 0).map
            (cbOutToJson accepted.height))
        have count : accepted.cb.outputs.length =
            (accepted.checked.draft.cbOuts.filter fun out => out.units != 0).length := by
          rw [accepted.cb_eq]
          exact List.length_map _
        rw [List.length_map] at length
        rw [count]
        omega
    | _ => cases same
  · have txs : (Json.array (accepted.txs.map txToJson)).dumpSize < accepted.stored.dumpSize :=
      Json.dumpSize_lt_of_get? (accepted.stored_get? "txs" _ rfl)
    have listed := Json.dumpSize_array (accepted.txs.map txToJson)
    have one : (txToJson tx).dumpSize ≤ ((accepted.txs.map txToJson).map Json.dumpSize).sum := by
      obtain ⟨before, after, split⟩ := List.append_of_mem confirmed
      rw [split, List.map_append, List.map_append, List.map_cons, List.map_cons, List.sum_append,
        List.sum_cons]
      omega
    have outputs := Json.dumpSize_lt_of_get? (txToJson_base tx).2.2.1
    have length := Json.dumpSize_array (tx.outputs.map outputToJson)
    rw [List.length_map] at length
    omega

end Accepted

section Collisions

variable {log : List (Accepted host)}

/-- The number of inputs of a logged transaction fits in its field. -/
private theorem inputs_below (sound : SoundLog log) {tx : Tx} (member : tx ∈ logTxs log) :
    tx.inputs.length < 2 ^ 32 := by
  obtain ⟨accepted, listed, rfl | confirmed⟩ := mem_logTxs.mp member
  · rw [accepted.cb_shape.2.2.1]
    decide
  · exact Nat.lt_of_le_of_lt (accepted.txs_parsed (sound accepted listed) tx confirmed).inputs
      (by decide)

/-- What holds of the ids of a log holds of the ids of its first blocks. -/
theorem CollisionFree.front {more : List (Accepted host)}
    (free : CollisionFree (logTxs (log ++ more))) : CollisionFree (logTxs log) :=
  free.mono (by
    rw [logTxs_append]
    exact List.subset_append_left _ _)

/-- No ids collide in the log of the run with branches. -/
theorem branchedLog_free : CollisionFree (logTxs (branchedLog storedHost)) := by
  have listed : logTxs (branchedLog storedHost) =
      branchedContents.flatMap fun seen => seen.2.2 := by
    rw [← branched_shown.1, List.flatMap_map]
    rfl
  rw [listed]
  unfold CollisionFree
  decide +kernel

theorem spentLog_free : CollisionFree (logTxs (spentLog storedHost)) :=
  branchedLog_free.front.front

theorem openingLog_free : CollisionFree (logTxs (openingLog (Host.ofTables [] []))) := by
  obtain ⟨accepted, one, _, txs, _⟩ := openingLog_eq
  rw [one, logTxs, List.flatMap_singleton, txs]
  intro first firstIn second secondIn _
  rw [List.mem_singleton.mp firstIn, List.mem_singleton.mp secondIn]

/-- Transactions with the same id are of the same kind and spend the same. -/
theorem CollisionFree.same (free : CollisionFree (logTxs log)) (sound : SoundLog log)
    {first second : Tx} (firstIn : first ∈ logTxs log) (secondIn : second ∈ logTxs log)
    (named : first.txid = second.txid) :
    first.coinbase = second.coinbase ∧
      first.inputs.map TxIn.outpoint = second.inputs.map TxIn.outpoint :=
  canonicalTx_inputs (inputs_below sound firstIn) (inputs_below sound secondIn)
    (free first firstIn second secondIn named)

/-- A coinbase shares its id with coinbases of its own height only. -/
theorem CollisionFree.coinbase (free : CollisionFree (logTxs log)) (sound : SoundLog log)
    {accepted other : Accepted host} (member : accepted ∈ log) (otherIn : other ∈ log) {tx : Tx}
    (listed : tx = other.cb ∨ tx ∈ other.txs) (named : tx.txid = accepted.cb.txid) :
    other.height = accepted.height := by
  have txIn := mem_logTxs.mpr ⟨other, otherIn, listed⟩
  have cbIn := mem_logTxs.mpr ⟨accepted, member, .inl rfl⟩
  obtain ⟨isCb, cbHeight, _, _, plain⟩ := accepted.cb_shape
  have kind := (free.same sound txIn cbIn named).1
  rcases listed with rfl | confirmed
  · obtain ⟨otherCb, otherHeight, _, _, otherPlain⟩ := other.cb_shape
    have heights := canonicalTx_height otherCb isCb otherPlain plain
      (otherHeight ▸ other.height_lt) (cbHeight ▸ accepted.height_lt)
      (free _ txIn _ cbIn named)
    rw [otherHeight, cbHeight] at heights
    exact heights
  · rw [isCb, (other.txs_parsed (sound other otherIn) tx confirmed).user.1] at kind
    cases kind

end Collisions

/-! ## The book of a node -/

/-- The entry that a transaction makes at a height. -/
def bookEntry (posted : Tx × Nat) : Ledger.Entry Digest UInt32 UtxoRecord :=
  entryOf posted.1 posted.2

/-- Coins that are the balance of transactions of connected blocks, posted under
distinct ids at heights up to a limit. -/
structure Booked (log : List (Accepted host)) (limit : Nat) (utxo : UtxoSet)
    (book : List (Tx × Nat)) : Prop where
  journal : Ledger.Journal (book.map bookEntry) utxo
  distinct : ((book.map bookEntry).map Ledger.Entry.id).Nodup
  source : ∀ posted ∈ book, posted.2 ≤ limit ∧ ∃ accepted ∈ log,
    posted.2 = accepted.height ∧ (posted.1 = accepted.cb ∨ posted.1 ∈ accepted.txs)

namespace Booked

variable {log : List (Accepted host)} {limit : Nat} {utxo next : UtxoSet} {book : List (Tx × Nat)}

theorem empty (log : List (Accepted host)) (limit : Nat) : Booked log limit ∅ [] where
  journal := Ledger.Journal.empty
  distinct := List.nodup_nil
  source _ impossible := nomatch impossible

theorem mono (booked : Booked log limit utxo book) {more : List (Accepted host)} {higher : Nat}
    (grown : ∀ accepted ∈ log, accepted ∈ more) (above : limit ≤ higher) :
    Booked more higher utxo book where
  journal := booked.journal
  distinct := booked.distinct
  source posted member := by
    obtain ⟨low, accepted, listed, origin⟩ := booked.source posted member
    exact ⟨Nat.le_trans low above, accepted, grown accepted listed, origin⟩

theorem logged (booked : Booked log limit utxo book) {posted : Tx × Nat}
    (member : posted ∈ book) : posted.1 ∈ logTxs log := by
  obtain ⟨_, accepted, listed, _, origin⟩ := booked.source posted member
  exact mem_logTxs.mpr ⟨accepted, listed, origin⟩

variable (free : CollisionFree (logTxs log)) (sound : SoundLog log)
include free sound

/-- The coinbase of a block above everything in the book has a new id. -/
theorem coinbase_fresh (booked : Booked log limit utxo book) {accepted : Accepted host}
    (member : accepted ∈ log) (above : limit < accepted.height) :
    accepted.cb.txid ∉ (book.map bookEntry).map Ledger.Entry.id := by
  intro used
  obtain ⟨entry, listed, named⟩ := List.mem_map.mp used
  obtain ⟨posted, inBook, rfl⟩ := List.mem_map.mp listed
  obtain ⟨low, other, otherIn, height, origin⟩ := booked.source posted inBook
  have same := free.coinbase sound member otherIn origin named
  omega

/-- A transaction in the book under the id of a logged one spends the same. -/
theorem determined (booked : Booked log limit utxo book) {tx : Tx} (member : tx ∈ logTxs log)
    (height : Nat) : ∀ other ∈ book.map bookEntry, other.id = (entryOf tx height).id →
      other.spends = (entryOf tx height).spends := by
  intro other listed named
  obtain ⟨posted, inBook, rfl⟩ := List.mem_map.mp listed
  exact (free.same sound (booked.logged inBook) member named).2

/-- The coinbase of a block above everything in the book can be posted. -/
theorem coinbase (booked : Booked log limit utxo book) {accepted : Accepted host}
    (member : accepted ∈ log) (above : limit < accepted.height) :
    ∃ next, Ledger.post utxo (entryOf accepted.cb accepted.height) = some next ∧
      Booked log accepted.height next (book ++ [(accepted.cb, accepted.height)]) := by
  have fresh := booked.coinbase_fresh free sound member above
  have spendless : (entryOf accepted.cb accepted.height).spends = [] := by
    rw [entryOf, accepted.cb_shape.2.2.1]
    rfl
  obtain ⟨next, posted⟩ := booked.journal.post_succeeds (entryOf accepted.cb accepted.height)
    fresh (by rw [spendless]; exact List.forall_mem_nil _)
  refine ⟨next, posted, ?_, ?_, ?_⟩
  · rw [List.map_append]
    refine booked.journal.append ?_
    change (Ledger.post utxo (entryOf accepted.cb accepted.height)).bind _ = _
    rw [posted]
    rfl
  · rw [List.map_append, List.map_append]
    refine List.nodup_append.mpr ⟨booked.distinct, List.nodup_singleton _, ?_⟩
    intro used usedIn _ isLast same
    rw [List.mem_singleton.mp isLast] at same
    rw [same] at usedIn
    exact fresh usedIn
  · intro entry entryIn
    rcases List.mem_append.mp entryIn with older | isNew
    · obtain ⟨low, origin⟩ := booked.source entry older
      exact ⟨Nat.le_of_lt (Nat.lt_of_le_of_lt low above), origin⟩
    · rw [List.mem_singleton.mp isNew]
      exact ⟨Nat.le_refl _, accepted, member, rfl, .inl rfl⟩

/-- A transaction that is posted joins the book under a new id. -/
theorem confirm (booked : Booked log limit utxo book) {accepted : Accepted host}
    (member : accepted ∈ log) (within : accepted.height ≤ limit) {tx : Tx}
    (confirmed : tx ∈ accepted.txs)
    (posted : Ledger.post utxo (entryOf tx accepted.height) = some next) :
    Booked log limit next (book ++ [(tx, accepted.height)]) where
  journal := by
    rw [List.map_append]
    refine booked.journal.append ?_
    change (Ledger.post utxo (entryOf tx accepted.height)).bind _ = _
    rw [posted]
    rfl
  distinct := by
    have spends : (entryOf tx accepted.height).spends ≠ [] := by
      intro none
      exact accepted.inputs_ne confirmed (List.map_eq_nil_iff.mp none)
    obtain ⟨point, spent⟩ := List.exists_mem_of_ne_nil _ spends
    have fresh := booked.journal.id_fresh booked.distinct spent
      ((Ledger.settle_eq_some.mp posted).1 point spent)
      (booked.determined free sound
        (mem_logTxs.mpr ⟨accepted, member, .inr confirmed⟩) accepted.height)
    rw [List.map_append, List.map_append]
    refine List.nodup_append.mpr ⟨booked.distinct, List.nodup_singleton _, ?_⟩
    intro used usedIn _ isLast same
    rw [List.mem_singleton.mp isLast] at same
    exact fresh (same ▸ usedIn)
  source entry entryIn := by
    rcases List.mem_append.mp entryIn with older | isNew
    · exact booked.source entry older
    · rw [List.mem_singleton.mp isNew]
      exact ⟨within, accepted, member, rfl, .inr confirmed⟩

/-- The checks of a block let its entries follow each other. -/
theorem follows (booked : Booked log limit utxo book) {accepted : Accepted host}
    (member : accepted ∈ log) (above : limit < accepted.height)
    (coins : accepted.node.storage.utxo = utxo)
    {before after : List (Ledger.Entry Digest UInt32 UtxoRecord)}
    {entry : Ledger.Entry Digest UInt32 UtxoRecord}
    (split : blockEntries accepted.cb accepted.txs accepted.height = before ++ entry :: after) :
    Ledger.Follows (book.map bookEntry) utxo before entry := by
  cases before with
  | nil =>
      obtain ⟨rfl, _⟩ := List.cons.inj split
      have spendless : (entryOf accepted.cb accepted.height).spends = [] := by
        rw [entryOf, accepted.cb_shape.2.2.1]
        rfl
      refine ⟨?_, ?_, .inl ?_⟩
      · rw [spendless]
        exact List.forall_mem_nil _
      · rw [spendless]
        exact List.forall_mem_nil _
      · rw [List.append_nil]
        exact booked.coinbase_fresh free sound member above
  | cons head front =>
      obtain ⟨rfl, confirmed⟩ := List.cons.inj split
      obtain ⟨earlier, rest, splitTxs, rfl, later⟩ := List.map_eq_append_iff.mp confirmed
      cases rest with
      | nil => cases later
      | cons tx others =>
          obtain ⟨rfl, _⟩ := List.cons.inj later
          have txIn : tx ∈ accepted.txs := by
            rw [splitTxs]
            exact List.mem_append_right _ List.mem_cons_self
          obtain ⟨_, _, _, _, _, passed⟩ := accepted.tx_passed splitTxs
          obtain ⟨inputs, _, total, summed, _⟩ := checkSpendable_ok.mp passed.spendable
          have located := sumInputs_ok summed
          have prior : entryOf accepted.cb accepted.height ::
              earlier.map (fun tx => entryOf tx accepted.height) =
              (accepted.cb :: earlier).map fun tx => entryOf tx accepted.height := rfl
          rw [prior]
          refine ⟨?_, ?_, .inr ⟨fun none => inputs (List.map_eq_nil_iff.mp none), ?_⟩⟩
          · intro point spent
            obtain ⟨input, inputIn, rfl⟩ := List.mem_map.mp spent
            obtain ⟨_, found, _, foundAt, _⟩ := located input inputIn
            rw [coins] at foundAt
            rcases findOutpoint_some foundAt with ⟨rec, present, _⟩ |
              ⟨_, source, listed, named, below, _⟩
            · exact .inl (Finmap.mem_of_lookup_eq_some present)
            · refine .inr ⟨_, List.mem_map_of_mem listed, ?_⟩
              rw [TxIn.outpoint, ← named]
              exact mem_points_entryOf below accepted.height
          · intro point spent other otherIn
            obtain ⟨input, inputIn, rfl⟩ := List.mem_map.mp spent
            obtain ⟨source, listed, rfl⟩ := List.mem_map.mp otherIn
            exact spentBy_eq_false.mp (located input inputIn).1 source listed
          · intro other otherIn named
            have logged := mem_logTxs.mpr ⟨accepted, member, .inr txIn⟩
            rcases List.mem_append.mp otherIn with older | inBlock
            · exact booked.determined free sound logged accepted.height other older named
            · obtain ⟨source, listed, rfl⟩ := List.mem_map.mp inBlock
              refine (free.same sound (mem_logTxs.mpr ⟨accepted, member, ?_⟩) logged named).2
              rcases List.mem_cons.mp listed with isCb | earlierIn
              · exact .inl isCb
              · refine .inr ?_
                rw [splitTxs]
                exact List.mem_append_left _ earlierIn

/-- The entries of an accepted block can be posted to the coins it was checked
on, and join the book. -/
theorem block (booked : Booked log limit utxo book) {accepted : Accepted host}
    (member : accepted ∈ log) (above : limit < accepted.height)
    (coins : accepted.node.storage.utxo = utxo) :
    ∃ next, Ledger.postAll utxo (blockEntries accepted.cb accepted.txs accepted.height) =
        some next ∧
      Booked log accepted.height next
        (book ++ (accepted.cb :: accepted.txs).map fun tx => (tx, accepted.height)) := by
  obtain ⟨⟨next, posted⟩, distinct⟩ := booked.journal.postAll_succeeds booked.distinct
    fun _ _ _ split => booked.follows free sound member above coins split
  have entries : ((accepted.cb :: accepted.txs).map fun tx => (tx, accepted.height)).map bookEntry =
      blockEntries accepted.cb accepted.txs accepted.height := by
    rw [List.map_map]
    rfl
  refine ⟨next, posted, ?_, ?_, ?_⟩
  · rw [List.map_append, entries]
    exact booked.journal.append posted
  · rw [List.map_append, entries]
    exact distinct
  · intro entry entryIn
    rcases List.mem_append.mp entryIn with older | isNew
    · obtain ⟨low, origin⟩ := booked.source entry older
      exact ⟨Nat.le_of_lt (Nat.lt_of_le_of_lt low above), origin⟩
    · obtain ⟨tx, listed, rfl⟩ := List.mem_map.mp isNew
      exact ⟨Nat.le_refl _, accepted, member, rfl, List.mem_cons.mp listed⟩

end Booked

/-! ## Every run keeps the books -/

/-- A node whose chain is sourced, whose names are sound, and whose coins are
booked as far as no two transaction ids collide. -/
structure Grounded (log : List (Accepted host)) (node : Node) : Prop where
  sourced : Sourced log node
  names : node.names.Sound
  sound : SoundLog log
  booked : CollisionFree (logTxs log) →
    ∃ book, Booked log node.storage.bestHeight node.storage.utxo book

/-- Replaying a transaction of a connected block keeps the coins booked. -/
theorem Booked.replayTxs {log : List (Accepted host)} (free : CollisionFree (logTxs log))
    (sound : SoundLog log) {accepted : Accepted host} (member : accepted ∈ log) {limit : Nat}
    (within : accepted.height ≤ limit) {txs : List Tx} (confirmed : ∀ tx ∈ txs, tx ∈ accepted.txs)
    (node : Node) (booked : ∃ book, Booked log limit node.storage.utxo book) :
    ∃ book, Booked log limit
      (replayTxs host accepted.height node (txs.map txToJson)).1.storage.utxo book := by
  induction txs generalizing node with
  | nil => exact booked
  | cons tx rest ih =>
      rw [List.forall_mem_cons] at confirmed
      have replayed : ∃ book, Booked log limit
          (replayTx host accepted.height node (txToJson tx)).1.storage.utxo book := by
        unfold replayTx
        split
        · exact booked
        next read parses =>
          have same := parseUserTx_txToJson_eq
            (accepted.txs_parsed (sound accepted member) tx confirmed.1) parses
          subst same
          rw [applyTxUtxos_eq]
          split
          · exact booked
          next utxo posted =>
            obtain ⟨book, before⟩ := booked
            have after := before.confirm free sound member within confirmed.1 posted
            split <;> exact ⟨_, after⟩
      rw [List.map_cons, PiSecure.replayTxs]
      split
      next next ended =>
        rw [ended] at replayed
        exact ih confirmed.2 _ replayed
      next stopped _ => exact replayed

/-- Applying a stored block keeps a node grounded. -/
theorem Grounded.applyBlock {log : List (Accepted host)} {node : Node}
    (grounded : Grounded log node)
    {accepted : Accepted host} {index : Nat} (listed : log[index]? = some accepted)
    (next : accepted.height = node.storage.chainIndex.nextHeight) :
    Grounded log (applyBlock host node (accepted.found index)).1 where
  sourced := ⟨grounded.sourced.traced.applyBlock listed next, grounded.sourced.earlier⟩
  names := (applyBlock_written _ node).sound grounded.names
  sound := grounded.sound
  booked free := by
    have member := List.mem_of_getElem? listed
    have shaped := grounded.sourced.traced.shaped
    have above : node.storage.bestHeight < accepted.height := by
      rw [next, shaped.nextHeight_eq]
      exact Nat.lt_succ_self _
    obtain ⟨book, booked⟩ := grounded.booked free
    rcases applyBlock_chainIndex shaped next index with ⟨status, _, stopped⟩ | indexed
    · rw [stopped]
      exact ⟨book, booked⟩
    · have height : (PiSecure.applyBlock host node (accepted.found index)).1.storage.bestHeight =
          accepted.height := congrArg ChainIndex.bestHeight indexed
      rw [height]
      obtain ⟨paid, posted, after⟩ := booked.coinbase free grounded.sound member above
      have lifted := booked.mono (fun _ listed => listed) (Nat.le_of_lt above)
      unfold PiSecure.applyBlock
      split
      · exact ⟨book, lifted⟩
      next header read =>
        split
        · exact ⟨book, lifted⟩
        next storage stored =>
          have kept : storage.utxo = node.storage.utxo := indexExistingBlock_utxo stored
          rw [Accepted.coinbaseCredits_found]
          dsimp only
          rw [applyCoinbaseUtxos_eq _ _ accepted.cb_shape.2.2.1, kept, posted]
          dsimp only
          have replayed := Booked.replayTxs free grounded.sound member (Nat.le_refl _)
            (fun tx confirmed => confirmed) (Node.withUtxo { node with storage := storage } paid)
            ⟨_, after⟩
          have items : ((accepted.found index).obj.array? "txs").getD [] =
              accepted.txs.map txToJson := accepted.stored_txs
          rw [items]
          split
          next final ended =>
            have finished : PiSecure.replayTxs host accepted.height _ _ = (final, .done) := ended
            rw [finished] at replayed
            exact replayed
          next stopped _ => exact replayed

theorem Grounded.reframed {log : List (Accepted host)} {node other : Node}
    (grounded : Grounded log node) (same : SameChain node other) : Grounded log other where
  sourced := sourced_stable.reframed same grounded.sourced
  names := same.names.sound grounded.names
  sound := grounded.sound
  booked free := by
    have height : other.storage.bestHeight = node.storage.bestHeight :=
      congrArg ChainIndex.bestHeight same.index
    rw [height, same.utxo]
    exact grounded.booked free

theorem Grounded.sound_append {log : List (Accepted host)} {node : Node}
    (grounded : Grounded log node) {moment : Moment} {localPolicy : Bool} {params : Json}
    {accepted : Accepted host}
    (passed : acceptance host moment localPolicy node params = some accepted) :
    SoundLog (log ++ [accepted]) := by
  intro other member
  rcases List.mem_append.mp member with older | isNew
  · exact grounded.sound other older
  · rw [List.mem_singleton.mp isNew, (acceptance_of passed).node_eq]
    exact grounded.names

/-- Connecting a block that passed posts its entries. -/
theorem Grounded.connect {log : List (Accepted host)} {node : Node} (grounded : Grounded log node)
    {moment : Moment} {localPolicy : Bool} {params : Json} {accepted : Accepted host}
    (passed : acceptance host moment localPolicy node params = some accepted) {limit : Nat}
    (above : limit < accepted.height) {book : List (Tx × Nat)}
    (free : CollisionFree (logTxs (log ++ [accepted])))
    (booked : Booked log limit node.storage.utxo book) :
    let next := connectBlock host moment localPolicy { node with names := accepted.names }
      accepted.checked
    Ledger.postAll node.storage.utxo (blockEntries accepted.cb accepted.txs accepted.height) =
        some next.storage.utxo ∧
      Booked (log ++ [accepted]) accepted.height next.storage.utxo
        (book ++ (accepted.cb :: accepted.txs).map fun tx => (tx, accepted.height)) := by
  have wider : Booked (log ++ [accepted]) _ _ _ := booked.mono
    (fun _ listed => List.mem_append_left _ listed) (Nat.le_refl _)
  obtain ⟨next, posted, after⟩ := wider.block free (grounded.sound_append passed)
    (List.mem_append_right _ (List.mem_singleton_self _)) above
    (congrArg (fun node => node.storage.utxo) (acceptance_of passed).node_eq)
  obtain ⟨names, challenges, outstanding, namesFile, connected⟩ :=
    connectBlock_eq host moment localPolicy { node with names := accepted.names }
      accepted.checked
  have coins : (connectBlock host moment localPolicy { node with names := accepted.names }
      accepted.checked).storage.utxo = next := by
    rw [connected]
    exact confirmUtxos_eq accepted.cb_shape.2.2.1 posted
  dsimp only
  rw [coins]
  exact ⟨posted, after⟩

theorem grounded_stable : Stable host Grounded where
  reframed same grounded := grounded.reframed same
  connected {log} {node} {moment} {localPolicy} {params} {accepted} grounded passed fresh := by
    refine ⟨sourced_stable.connected grounded.sourced passed fresh, ?_,
      grounded.sound_append passed, ?_⟩
    · refine (connectBlock_written _ _ _ _).sound (accepted.names_written.sound ?_)
      rw [(acceptance_of passed).node_eq]
      exact grounded.names
    · intro free
      obtain ⟨book, booked⟩ := grounded.booked free.front
      have traced := grounded.sourced.traced
      have height := congrArg ChainIndex.bestHeight (traced.shaped.connect_index passed)
      change _ = accepted.height at height
      change ∃ book, Booked _ (ChainIndex.bestHeight (Storage.chainIndex _)) _ book
      rw [height]
      exact ⟨_, (grounded.connect passed (traced.above passed ▸ Nat.lt_succ_self _) free booked).2⟩
  replayed {log} {node} moment tip grounded :=
    rpcReplayChain_rule (Grounded _) (fun holds => holds.sourced.traced.shaped)
      (fun holds listed next _ => holds.applyBlock listed next) grounded.sourced.traced.frames
      (fun holds => holds.reframed (loadMempool_sameChain moment _)) grounded
      ⟨⟨grounded.sourced.traced.reset, grounded.sourced.earlier⟩, grounded.names, grounded.sound,
        fun _ => ⟨[], Booked.empty _ _⟩⟩ tip
  restarted {log} {node} {next} moment grounded ended := by
    have base : Grounded log (restartBase node) :=
      ⟨⟨grounded.sourced.traced.restartBase, grounded.sourced.earlier⟩,
        (NameTable.written_loadFile _ _).sound NameTable.sound_empty, grounded.sound,
        fun _ => ⟨[], Booked.empty _ _⟩⟩
    have restarted := restart_rule (Grounded log) (fun holds => holds.sourced.traced.shaped)
      (fun holds listed next _ => holds.applyBlock listed next) grounded.sourced.traced.frames
      (fun holds => holds.reframed (loadMempool_sameChain moment _)) base
    rw [ended] at restarted
    exact restarted

/-- A run that stores no binary block body keeps the node grounded. -/
theorem Grounded.run {wallets : Wallets} {calls : List Call} {log : List (Accepted host)}
    {node : Node}
    (ran : (nodeMachine host).Runs (fun state call => Stable.storesBinary host state call = false)
      (Node.empty wallets) calls log node) : Grounded log node :=
  grounded_stable.run
    ⟨⟨Traced.empty, fun _ impossible => (nomatch impossible)⟩, NameTable.sound_empty,
      fun _ impossible => (nomatch impossible), fun _ => ⟨[], Booked.empty _ _⟩⟩ ran

end PiSecure
