import PiSecure.General.Merkle
import PiSecure.Theory.Books

/-! # What a merkle root pins

The merkle root of a block pins the ids under it: a list that shares the root and
is not the same repeats an id, and no accepted block does. Two transactions of one
id spend the same outpoints, and the transaction loop takes an outpoint once.
-/

namespace PiSecure

variable {host : Host}

/-! ## The root of the source -/

theorem merkleLevel_eq (host : Host) (ids : List Digest) :
    merkleLevel host ids = Merkle.level host.sha256Pair ids := by
  induction ids using merkleLevel.induct with
  | case1 => rfl
  | case2 last => rfl
  | case3 left right rest ih =>
      rw [merkleLevel, ih]
      rfl

/-- The source folds the tree, and gives the zero digest for no ids. -/
theorem merkleRoot_eq (host : Host) (ids : List Digest) :
    merkleRoot host ids = (Merkle.root host.sha256Pair ids).getD Digest.zero := by
  induction ids using merkleRoot.induct host with
  | case1 => rw [merkleRoot, Merkle.root, Option.getD_none]
  | case2 root => rw [merkleRoot, Merkle.root, Option.getD_some]
  | case3 left right rest ih => rw [merkleRoot, Merkle.root, ih, merkleLevel_eq]

/-- Equal roots of lists with ids are equal roots of their trees. -/
theorem root_eq_of_merkleRoot {first second : List Digest} (firstSome : first ≠ [])
    (secondSome : second ≠ []) (same : merkleRoot host first = merkleRoot host second) :
    Merkle.root host.sha256Pair first = Merkle.root host.sha256Pair second := by
  obtain ⟨one, isOne⟩ := Merkle.exists_root host.sha256Pair firstSome
  obtain ⟨other, isOther⟩ := Merkle.exists_root host.sha256Pair secondSome
  rw [merkleRoot_eq, merkleRoot_eq, isOne, isOther, Option.getD_some, Option.getD_some] at same
  rw [isOne, isOther, same]

/-! ## The ids of a block -/

namespace Accepted

variable (accepted : Accepted host)

/-- The ids that the merkle root of a block is computed from. -/
def ids : List Digest := accepted.cb.txid :: accepted.txs.map Tx.txid

theorem merkle_eq : accepted.header.merkleRoot = merkleRoot host accepted.ids :=
  (checkWork_ok.mp accepted.passes.work).1

/-- The transactions of a block are no coinbases, and their inputs can be counted. -/
theorem txs_user : ∀ tx ∈ accepted.txs, tx.coinbase = false ∧ tx.inputs.length < 2 ^ 32 := by
  intro tx member
  obtain ⟨payout, drafted⟩ := accepted.passes.drafted
  obtain ⟨item, parsed, parses, rfl⟩ := mem_readTxs drafted.txs member
  have shape := (parseUserTx_ok parses).1
  rw [resolveOutputNames_eq _ shape.txid]
  exact ⟨shape.user.1, Nat.lt_of_le_of_lt shape.inputs (by decide)⟩

/-- No transaction of a block has the id of the coinbase or of an earlier one. -/
theorem txid_fresh (free : CollisionFree (accepted.cb :: accepted.txs)) {before after : List Tx}
    {tx : Tx} (split : accepted.txs = before ++ tx :: after) :
    tx.txid ∉ (accepted.cb :: before).map Tx.txid := by
  intro used
  obtain ⟨earlier, listed, named⟩ := List.mem_map.mp used
  have inBlock : tx ∈ accepted.txs := by
    rw [split]
    exact List.mem_append_right _ List.mem_cons_self
  have earlierIn : earlier ∈ accepted.cb :: accepted.txs := by
    rw [split]
    rcases List.mem_cons.mp listed with rfl | inside
    · exact List.mem_cons_self
    · exact List.mem_cons_of_mem _ (List.mem_append_left _ inside)
  have counted : earlier.inputs.length < 2 ^ 32 := by
    rcases List.mem_cons.mp earlierIn with rfl | inside
    · rw [accepted.cb_shape.2.2.1]
      decide
    · exact (accepted.txs_user earlier inside).2
  obtain ⟨_, spends⟩ := canonicalTx_inputs counted (accepted.txs_user tx inBlock).2
    (free earlier earlierIn tx (List.mem_cons_of_mem _ inBlock) named)
  obtain ⟨_, _, _, _, _, passed⟩ := accepted.tx_passed split
  obtain ⟨nonempty, _, total, summed, _⟩ := checkSpendable_ok.mp passed.spendable
  obtain ⟨input, inputIn⟩ := List.exists_mem_of_ne_nil _ nonempty
  refine spentBy_eq_false.mp (sumInputs_ok summed input inputIn).1 earlier listed ?_
  rw [spends]
  exact List.mem_map_of_mem inputIn

/-- An accepted block has no id twice, as far as no two of its ids collide. -/
theorem ids_nodup (free : CollisionFree (accepted.cb :: accepted.txs)) : accepted.ids.Nodup := by
  have front : ∀ before after, accepted.txs = before ++ after →
      ((accepted.cb :: before).map Tx.txid).Nodup := by
    intro before
    induction before using List.reverseRecOn with
    | nil => exact fun _ _ => List.nodup_singleton _
    | append_singleton before tx ih =>
        intro after split
        rw [List.append_assoc, List.singleton_append] at split
        have fresh := accepted.txid_fresh free split
        rw [← List.cons_append, List.map_append, List.nodup_append]
        refine ⟨ih _ split, List.nodup_singleton _, ?_⟩
        rintro id used _ isNew rfl
        rw [List.map_singleton, List.mem_singleton] at isNew
        exact fresh (isNew ▸ used)
  exact front accepted.txs [] (List.append_nil _).symm

end Accepted

/-- **The merkle root pins the transactions.** Lists of ids with the same root, whose
hashes are separate, are the same when the first repeats no id, or the second
repeats one. Accepted blocks with the same root have the same ids in the same order,
as far as no two ids of one block collide. -/
theorem merkle_root_pins (host : Host) :
    (∀ first second : List Digest, first ≠ [] → second ≠ [] →
      Merkle.Separate host.sha256Pair (first ++ second)
        (Merkle.hashed host.sha256Pair first ++ Merkle.hashed host.sha256Pair second) →
      merkleRoot host first = merkleRoot host second → first.Nodup →
      first = second ∨ ¬second.Nodup) ∧
    ∀ first second : Accepted host,
      Merkle.Separate host.sha256Pair (first.ids ++ second.ids)
        (Merkle.hashed host.sha256Pair first.ids ++ Merkle.hashed host.sha256Pair second.ids) →
      CollisionFree (first.cb :: first.txs) → CollisionFree (second.cb :: second.txs) →
      first.header.merkleRoot = second.header.merkleRoot → first.ids = second.ids := by
  have pins : ∀ first second : List Digest, first ≠ [] → second ≠ [] →
      Merkle.Separate host.sha256Pair (first ++ second)
        (Merkle.hashed host.sha256Pair first ++ Merkle.hashed host.sha256Pair second) →
      merkleRoot host first = merkleRoot host second → first.Nodup →
      first = second ∨ ¬second.Nodup := by
    intro first second firstSome secondSome separate same distinct
    exact Merkle.eq_or_repeats separate firstSome distinct
      (root_eq_of_merkleRoot firstSome secondSome same)
  refine ⟨pins, fun first second separate firstFree secondFree same => ?_⟩
  rw [first.merkle_eq, second.merkle_eq] at same
  exact (pins first.ids second.ids (List.cons_ne_nil _ _) (List.cons_ne_nil _ _) separate same
    (first.ids_nodup firstFree)).resolve_right (not_not.mpr (second.ids_nodup secondFree))

/-! ## Lists that share a root -/

/-- Whether the hashes of lists are separate, as a computation. -/
def separateHashes (host : Host) (first second : List Digest) : Bool :=
  let hashes := Merkle.hashed host.sha256Pair first ++ Merkle.hashed host.sha256Pair second
  (hashes.all fun one => hashes.all fun other =>
    host.sha256Pair one.1 one.2 != host.sha256Pair other.1 other.2 || one == other) &&
  (first ++ second).all fun leaf => hashes.all fun couple =>
    host.sha256Pair couple.1 couple.2 != leaf

theorem separate_of_hashes {first second : List Digest}
    (separate : separateHashes host first second = true) :
    Merkle.Separate host.sha256Pair (first ++ second)
      (Merkle.hashed host.sha256Pair first ++ Merkle.hashed host.sha256Pair second) := by
  rw [separateHashes, Bool.and_eq_true] at separate
  obtain ⟨injective, apart⟩ := separate
  refine ⟨fun one oneIn other otherIn same => ?_, fun leaf leafIn couple coupleIn => ?_⟩
  · have either := List.all_eq_true.mp (List.all_eq_true.mp injective one oneIn) other otherIn
    rw [same, bne_self_eq_false, Bool.false_or] at either
    exact eq_of_beq either
  · exact bne_iff_ne.mp
      (List.all_eq_true.mp (List.all_eq_true.mp apart leaf leafIn) couple coupleIn)

/-- Three ids, and the same ids with the last one twice. -/
private def threeIds : List Digest :=
  [Digest.ofPrefix [1], Digest.ofPrefix [2], Digest.ofPrefix [3]]

/-- Transactions with different ids do not collide. -/
theorem Accepted.free_of_nodup {accepted : Accepted host} (distinct : accepted.ids.Nodup) :
    CollisionFree (accepted.cb :: accepted.txs) := by
  have listed : ((accepted.cb :: accepted.txs).map Tx.txid).Nodup := distinct
  intro first firstIn second secondIn same
  rw [List.inj_on_of_nodup_map listed firstIn secondIn same]

/-- One block as a mined and as a synced one, and two lists of ids, one of which repeats the
last id of the other. -/
theorem merkle_root_pins_naming :
    (threeIds = threeIds ++ [Digest.ofPrefix [3]] ∨
        ¬(threeIds ++ [Digest.ofPrefix [3]]).Nodup) ∧
      ∃ mined synced : Accepted namingHost,
        mined.localPolicy = true ∧ synced.localPolicy = false ∧ mined.txs.length = 2 ∧
          mined.ids = synced.ids := by
  have separate : separateHashes namingHost threeIds (threeIds ++ [Digest.ofPrefix [3]]) =
      true := by
    decide +kernel
  have same : merkleRoot namingHost threeIds =
      merkleRoot namingHost (threeIds ++ [Digest.ofPrefix [3]]) := by
    rw [threeIds, List.cons_append, List.cons_append, List.cons_append, List.nil_append, merkleRoot,
      merkleRoot]
    rfl
  have accepts : ∀ localPolicy, (acceptance namingHost sampleMoment localPolicy
      (openedNode namingHost) namingBlock.json).any (fun accepted => accepted.ids == namingIds &&
        accepted.header.merkleRoot == namingBlock.root) = true := by
    rw [namingHost_opened]
    decide +kernel
  have distinct : namingIds.Nodup ∧ separateHashes namingHost namingIds namingIds = true := by
    decide +kernel
  obtain ⟨mined, mines, minedShown⟩ := Option.any_eq_true _ _ |>.mp (accepts true)
  obtain ⟨synced, syncs, syncedShown⟩ := Option.any_eq_true _ _ |>.mp (accepts false)
  rw [Bool.and_eq_true, beq_iff_eq, beq_iff_eq] at minedShown syncedShown
  have two : mined.txs.length = 2 := by
    have lengths := congrArg List.length minedShown.1
    rw [Accepted.ids, List.length_cons, List.length_map] at lengths
    exact Nat.succ.inj lengths
  obtain ⟨pins, blocks⟩ := merkle_root_pins namingHost
  refine ⟨pins _ _ (List.cons_ne_nil _ _) (List.cons_ne_nil _ _) (separate_of_hashes separate) same
    (by decide), mined, synced, (acceptance_of mines).policy_eq, (acceptance_of syncs).policy_eq,
    two, blocks mined synced ?_ (Accepted.free_of_nodup ?_) (Accepted.free_of_nodup ?_) ?_⟩
  · rw [minedShown.1, syncedShown.1]
    exact separate_of_hashes distinct.2
  · rw [minedShown.1]
    exact distinct.1
  · rw [syncedShown.1]
    exact distinct.1
  · exact minedShown.2.trans syncedShown.2.symm

end PiSecure
