import PiSecure.Theory.Books

/-! # The active chain as a list of connected blocks

The blocks of an active chain follow each other from height 1 on, and the coins
of the node are what their entries leave when they are posted from nothing.
-/

namespace PiSecure

variable {host : Host}

/-! ## Linked blocks -/

/-- The hash of the last block; zero when there is none. -/
def tipHash (chain : List (Accepted host)) : Digest :=
  (chain.getLast?.map Accepted.hash).getD Digest.zero

@[simp] theorem tipHash_append (chain : List (Accepted host)) (accepted : Accepted host) :
    tipHash (chain ++ [accepted]) = accepted.hash := by
  rw [tipHash, List.getLast?_append, List.getLast?_singleton]
  rfl

/-- Blocks that follow each other from height 1 on. -/
def Linked (chain : List (Accepted host)) : Prop :=
  ∀ before accepted after, chain = before ++ accepted :: after →
    accepted.height = before.length + 1 ∧ accepted.prev = tipHash before

theorem Linked.nil : Linked ([] : List (Accepted host)) := by
  intro before accepted after split
  cases before <;> cases split

theorem Linked.front {chain more : List (Accepted host)} (linked : Linked (chain ++ more)) :
    Linked chain := by
  intro before accepted after split
  exact linked before accepted (after ++ more)
    (by rw [split, List.append_assoc, List.cons_append])

theorem linked_append_singleton {chain : List (Accepted host)} {accepted : Accepted host} :
    Linked (chain ++ [accepted]) ↔
      Linked chain ∧ accepted.height = chain.length + 1 ∧ accepted.prev = tipHash chain := by
  constructor
  · intro linked
    exact ⟨linked.front, linked chain accepted [] rfl⟩
  · rintro ⟨linked, last⟩ before other after split
    rcases List.eq_nil_or_concat after with rfl | ⟨middle, final, rfl⟩
    · obtain ⟨rfl, same⟩ := List.append_inj' split rfl
      cases same
      exact last
    · have whole : chain ++ [accepted] = (before ++ other :: middle) ++ [final] := by
        rw [split, List.append_assoc, List.cons_append, List.concat_eq_append]
      obtain ⟨rfl, _⟩ := List.append_inj' whole rfl
      exact linked before other middle rfl

/-- The height of a block is its place in the chain. -/
theorem Linked.height {chain : List (Accepted host)} (linked : Linked chain) {index : Nat}
    {accepted : Accepted host} (listed : chain[index]? = some accepted) :
    accepted.height = index + 1 := by
  obtain ⟨below, same⟩ := List.getElem?_eq_some_iff.mp listed
  have split : chain = chain.take index ++ accepted :: chain.drop (index + 1) := by
    rw [← same, List.getElem_cons_drop, List.take_append_drop]
  have height := (linked _ _ _ split).1
  rw [List.length_take, Nat.min_eq_left (Nat.le_of_lt below)] at height
  exact height

/-! ### On disk -/

/-- Connected blocks, each with the place of its frame on disk, as a scan finds
them. -/
def scanned (placed : List (Accepted host × Nat)) : List FoundBlock :=
  placed.map fun (accepted, index) => accepted.found index

private theorem linked_concat (items : List FoundBlock) (item : FoundBlock) (expect : Nat)
    (expectPrev : Digest) :
    linked (items ++ [item]) expect expectPrev = true ↔
      linked items expect expectPrev = true ∧ item.height = expect + items.length ∧
        item.prev = (items.getLast?.map FoundBlock.hash).getD expectPrev := by
  induction items generalizing expect expectPrev with
  | nil =>
      rw [List.nil_append, linked_cons]
      exact ⟨fun all => ⟨rfl, all.1, all.2.1⟩, fun all => ⟨all.2.1, all.2.2, rfl⟩⟩
  | cons first rest ih =>
      have last : ((first :: rest).getLast?.map FoundBlock.hash).getD expectPrev =
          (rest.getLast?.map FoundBlock.hash).getD first.hash := by
        cases rest with
        | nil => rfl
        | cons second others =>
            rw [List.getLast?_cons_cons, List.getLast?_eq_getLast_of_ne_nil (List.cons_ne_nil _ _)]
            rfl
      have length : expect + (first :: rest).length = expect + 1 + rest.length := by
        rw [List.length_cons]
        omega
      rw [List.cons_append, linked_cons, linked_cons, ih, last, length]
      tauto

/-- Linked blocks are linked as they are found on disk. -/
theorem linked_scanned (placed : List (Accepted host × Nat)) :
    linked (scanned placed) 1 Digest.zero = true ↔ Linked (placed.map Prod.fst) := by
  induction placed using List.reverseRecOn with
  | nil => exact ⟨fun _ => Linked.nil, fun _ => rfl⟩
  | append_singleton front last ih =>
      obtain ⟨accepted, index⟩ := last
      have tip : ((scanned front).getLast?.map FoundBlock.hash).getD Digest.zero =
          tipHash (front.map Prod.fst) := by
        rw [tipHash, scanned, List.getLast?_map, List.getLast?_map, Option.map_map,
          Option.map_map]
        rfl
      have found : scanned (front ++ [(accepted, index)]) =
          scanned front ++ [accepted.found index] := by
        rw [scanned, List.map_append]
        rfl
      rw [found, linked_concat, ih, List.map_append, List.map_singleton, linked_append_singleton,
        tip, scanned, List.length_map, List.length_map, Nat.add_comm 1]
      exact Iff.rfl

/-! ## The state of a chain -/

/-- The entries of the blocks of a chain. -/
def chainEntries (chain : List (Accepted host)) : List (Ledger.Entry Digest UInt32 UtxoRecord) :=
  chain.flatMap fun accepted => blockEntries accepted.cb accepted.txs accepted.height

theorem chainEntries_append (chain : List (Accepted host)) (accepted : Accepted host) :
    chainEntries (chain ++ [accepted]) =
      chainEntries chain ++ blockEntries accepted.cb accepted.txs accepted.height := by
  rw [chainEntries, List.flatMap_append, List.flatMap_singleton]
  rfl

/-- The book of the blocks of a chain. -/
def chainBook (chain : List (Accepted host)) : List (Tx × Nat) :=
  chain.flatMap fun accepted => (accepted.cb :: accepted.txs).map fun tx => (tx, accepted.height)

theorem chainBook_append (chain : List (Accepted host)) (accepted : Accepted host) :
    chainBook (chain ++ [accepted]) =
      chainBook chain ++ (accepted.cb :: accepted.txs).map fun tx => (tx, accepted.height) := by
  rw [chainBook, List.flatMap_append, List.flatMap_singleton]
  rfl

theorem map_chainBook (chain : List (Accepted host)) :
    (chainBook chain).map bookEntry = chainEntries chain := by
  rw [chainBook, chainEntries, List.map_flatMap]
  refine congrArg (fun entries => chain.flatMap entries) (funext fun accepted => ?_)
  rw [List.map_map]
  rfl

/-- The flag book after the blocks of a chain. -/
def applyChainFlags (book : FlagBook) (chain : List (Accepted host)) : Except String FlagBook :=
  chain.foldlM (fun book accepted => applyFlagTxs book accepted.txs accepted.height) book

theorem applyChainFlags_append (book : FlagBook) (chain : List (Accepted host))
    (accepted : Accepted host) :
    applyChainFlags book (chain ++ [accepted]) =
      (applyChainFlags book chain).bind fun flags =>
        applyFlagTxs flags accepted.txs accepted.height := by
  rw [applyChainFlags, List.foldlM_append]
  refine congrArg (Except.bind _) (funext fun flags => ?_)
  rw [List.foldlM_cons]
  exact bind_pure _

/-- The height index of a chain; its first entry is a filler. -/
def activeHashes (chain : List (Accepted host)) : List Digest :=
  if chain.isEmpty then [] else Digest.zero :: chain.map Accepted.hash

theorem activeHashes_append (chain : List (Accepted host)) (accepted : Accepted host) :
    activeHashes (chain ++ [accepted]) =
      (if (activeHashes chain).isEmpty then [Digest.zero] else activeHashes chain) ++
        [accepted.hash] := by
  cases chain with
  | nil => rfl
  | cons first rest =>
      change Digest.zero :: List.map Accepted.hash (first :: rest ++ [accepted]) = _
      rw [List.map_append]
      rfl

/-- A node on an active chain: its height index and its coins are those of the
chain. -/
structure OnChain (chain : List (Accepted host)) (storage : Storage) : Prop where
  linked : Linked chain
  active : storage.heightToHash = activeHashes chain
  best : storage.bestHeight = chain.length
  coins : Ledger.Journal (chainEntries chain) storage.utxo

namespace OnChain

variable {chain : List (Accepted host)} {storage next : Storage}

theorem nextHeight (on : OnChain chain storage) :
    storage.chainIndex.nextHeight = chain.length + 1 := by
  unfold ChainIndex.nextHeight
  change (if storage.heightToHash.isEmpty then 1 else storage.bestHeight + 1) = _
  rw [on.active, on.best]
  cases chain <;> rfl

theorem tip (on : OnChain chain storage) (shaped : storage.chainIndex.Shaped) :
    storage.chainIndex.tip = tipHash chain := by
  unfold ChainIndex.tip
  change (if storage.heightToHash.isEmpty then Digest.zero else storage.bestBlockHash) = _
  rcases List.eq_nil_or_concat chain with rfl | ⟨front, last, rfl⟩
  · rw [on.active]
    rfl
  · rw [List.concat_eq_append, tipHash_append]
    have active := on.active
    rw [List.concat_eq_append, activeHashes_append] at active
    rw [if_neg (by rw [active]; simp)]
    rcases shaped with ⟨noTip, _⟩ | ⟨_, length, listed⟩
    · change storage.heightToHash = [] at noTip
      rw [noTip] at active
      simp at active
    · change storage.heightToHash.length = storage.bestHeight + 1 at length
      change storage.heightToHash[storage.bestHeight]? = some storage.bestBlockHash at listed
      have lastRow : storage.heightToHash.getLast? = some last.hash := by
        rw [active, List.getLast?_append, List.getLast?_singleton]
        rfl
      rw [List.getLast?_eq_getElem?, length, Nat.add_sub_cancel, listed] at lastRow
      exact Option.some.inj lastRow

theorem empty : OnChain ([] : List (Accepted host)) Storage.empty :=
  ⟨Linked.nil, rfl, rfl, Ledger.Journal.empty⟩

theorem reset (storage : Storage) : OnChain ([] : List (Accepted host)) storage.resetActiveChain :=
  ⟨Linked.nil, rfl, rfl, Ledger.Journal.empty⟩

/-- A chain grows by a block that follows its tip and whose entries are posted. -/
theorem grow (on : OnChain chain storage) (shaped : storage.chainIndex.Shaped)
    {accepted : Accepted host} (height : accepted.height = storage.chainIndex.nextHeight)
    (prev : accepted.prev = storage.chainIndex.tip) {frames : List Payload} {index : Nat}
    (extended : next.chainIndex = storage.chainIndex.extend frames index accepted.header)
    (posted : Ledger.postAll storage.utxo
      (blockEntries accepted.cb accepted.txs accepted.height) = some next.utxo) :
    OnChain (chain ++ [accepted]) next where
  linked := linked_append_singleton.mpr
    ⟨on.linked, height.trans on.nextHeight, prev.trans (on.tip shaped)⟩
  active := by
    have written := shaped.writeHeight_eq accepted.hash
    have heights := congrArg ChainIndex.heightToHash extended
    change next.heightToHash = Storage.writeHeight storage.heightToHash accepted.height _ at heights
    rw [heights, height, activeHashes_append, ← on.active]
    exact written
  best := by
    have bestHeight := congrArg ChainIndex.bestHeight extended
    change next.bestHeight = accepted.height at bestHeight
    rw [bestHeight, height, on.nextHeight, List.length_append, List.length_singleton]
  coins := by
    rw [chainEntries_append]
    exact on.coins.append posted

end OnChain

end PiSecure
