import PiSecure.General.Precedence
import PiSecure.Model.Node

/-! # The order in which pending transactions are offered

The ordering loop places a transaction once every other listed transaction that
its inputs name is placed, and goes on while a pass places one. It stops with
exactly those left over that depend on a cycle.
-/

namespace PiSecure

/-- A listed transaction spends an output of another one: one of its inputs names
the id. -/
def SpendsAmong (txs : List Tx) (child parent : Tx) : Prop :=
  child ∈ txs ∧ parent ∈ txs ∧ child ≠ parent ∧ parent.txid ∈ child.inputs.map TxIn.prev

/-- The transactions at indices. -/
def placedTxs (txs : List Tx) (used : List Nat) : List Tx :=
  used.filterMap fun index => txs[index]?

theorem placedTxs_append (txs : List Tx) (used more : List Nat) :
    placedTxs txs (used ++ more) = placedTxs txs used ++ placedTxs txs more :=
  List.filterMap_append

variable {txs : List Tx} {used : List Nat} {index : Nat}

theorem placedTxs_singleton (bound : index < txs.length) :
    placedTxs txs [index] = [txs[index]] := by
  rw [placedTxs, List.filterMap_cons, List.getElem?_eq_getElem bound]
  rfl

theorem placedTxs_range (txs : List Tx) : placedTxs txs (List.range txs.length) = txs := by
  induction txs using List.reverseRecOn with
  | nil => rfl
  | append_singleton front last ih =>
      have kept : placedTxs (front ++ [last]) (List.range front.length) = front := by
        refine Eq.trans (List.filterMap_congr fun index listed => ?_) ih
        exact List.getElem?_append_left (List.mem_range.mp listed)
      rw [List.length_append, List.length_singleton, List.range_succ, placedTxs_append, kept,
        placedTxs_singleton (by simp), List.getElem_append_right (Nat.le_refl _)]
      simp

/-- Among distinct transactions, one is placed when its index is. -/
theorem getElem_mem_placedTxs (distinct : txs.Nodup) (bound : index < txs.length) :
    txs[index] ∈ placedTxs txs used ↔ index ∈ used := by
  rw [placedTxs, List.mem_filterMap]
  constructor
  · rintro ⟨other, listed, found⟩
    obtain ⟨otherBound, same⟩ := List.getElem?_eq_some_iff.mp found
    rwa [(distinct.getElem_inj_iff).mp same] at listed
  · intro listed
    exact ⟨index, listed, List.getElem?_eq_getElem bound⟩

/-! ## What the loop keeps -/

/-- Indices that are placed once each, after everything they spend. -/
structure Placed (txs : List Tx) (used : List Nat) : Prop where
  distinct : used.Nodup
  bounded : ∀ index ∈ used, index < txs.length
  first : NeedsFirst (SpendsAmong txs) (placedTxs txs used)

/-- A transaction waits for another one that is not placed and whose id one of its
inputs names. -/
theorem waits_iff (bound : index < txs.length) :
    waits txs used index = true ↔ ∃ other, ∃ inside : other < txs.length,
      other ≠ index ∧ other ∉ used ∧ txs[other].txid ∈ txs[index].inputs.map TxIn.prev := by
  simp only [waits, List.getElem?_eq_getElem bound, Option.map_some, Option.getD_some,
    List.any_eq_true,
    List.mem_range, Bool.and_eq_true, bne_iff_ne, Bool.not_eq_true', List.contains_eq_mem,
    decide_eq_false_iff_not, beq_iff_eq, List.mem_map]
  constructor
  · rintro ⟨input, listed, other, inside, ⟨apart, absent⟩, named⟩
    rw [List.getElem?_eq_getElem inside, Option.map_some, Option.some.injEq] at named
    exact ⟨other, inside, apart, absent, input, listed, named.symm⟩
  · rintro ⟨other, inside, apart, absent, input, listed, named⟩
    refine ⟨input, listed, other, inside, ⟨apart, absent⟩, ?_⟩
    rw [List.getElem?_eq_getElem inside, Option.map_some, named]

namespace Placed

theorem empty (txs : List Tx) : Placed txs [] :=
  ⟨List.nodup_nil, List.forall_mem_nil _, NeedsFirst.nil⟩

theorem length_le (placed : Placed txs used) : used.length ≤ txs.length := by
  have inside : used ⊆ List.range txs.length := fun index listed =>
    List.mem_range.mpr (placed.bounded index listed)
  have length := (placed.distinct.subperm inside).length_le
  rwa [List.length_range] at length

/-- A transaction that does not wait is placed next. -/
theorem next (placed : Placed txs used) (bound : index < txs.length) (unused : index ∉ used)
    (ready : waits txs used index = false) : Placed txs (used ++ [index]) where
  distinct := List.nodup_append.mpr ⟨placed.distinct, List.nodup_singleton _,
    fun other listed _ last same => unused (List.mem_singleton.mp last ▸ same ▸ listed)⟩
  bounded other listed := by
    rcases List.mem_append.mp listed with older | last
    · exact placed.bounded other older
    · rwa [List.mem_singleton.mp last]
  first := by
    rw [placedTxs_append, placedTxs_singleton bound]
    refine placed.first.append_singleton ?_
    rintro parent ⟨_, listed, apart, named⟩
    obtain ⟨other, inside, rfl⟩ := List.getElem_of_mem listed
    by_contra missing
    have waiting : waits txs used index = true :=
      (waits_iff bound).mpr ⟨other, inside, ?_, ?_, named⟩
    · rw [ready] at waiting
      cases waiting
    · rintro rfl
      exact apart rfl
    · intro placedAlready
      exact missing (List.mem_filterMap.mpr ⟨other, placedAlready, List.getElem?_eq_getElem inside⟩)

/-- A pass over indices keeps what is placed and adds to it. -/
theorem foldl (placed : Placed txs used) (indices : List Nat)
    (bounds : ∀ index ∈ indices, index < txs.length) :
    Placed txs (indices.foldl (fun used index =>
      if used.contains index || waits txs used index then used else used ++ [index]) used) := by
  induction indices generalizing used with
  | nil => exact placed
  | cons index rest ih =>
      rw [List.forall_mem_cons] at bounds
      rw [List.foldl_cons]
      refine ih ?_ bounds.2
      split
      · exact placed
      next ready =>
        rw [Bool.or_eq_true, not_or, Bool.not_eq_true, Bool.not_eq_true] at ready
        refine placed.next bounds.1 ?_ ready.2
        simpa using ready.1

theorem pass (placed : Placed txs used) : Placed txs (orderPass txs used) :=
  placed.foldl _ fun _ => List.mem_range.mp

theorem loop (placed : Placed txs used) (fuel : Nat) : Placed txs (orderLoop txs fuel used) := by
  induction fuel generalizing used with
  | zero => exact placed
  | succ fuel ih =>
      rw [orderLoop]
      split
      · exact placed
      · exact ih placed.pass

end Placed

/-! ## Where the loop stops -/

/-- A pass that does not get longer placed nothing: every index is placed or
waits. -/
theorem foldl_stopped (indices : List Nat) :
    used.length ≤ (indices.foldl (fun used index =>
        if used.contains index || waits txs used index then used
        else used ++ [index]) used).length ∧
      ((indices.foldl (fun used index =>
        if used.contains index || waits txs used index then used
        else used ++ [index]) used).length =
          used.length →
        ∀ index ∈ indices, index ∈ used ∨ waits txs used index = true) := by
  induction indices generalizing used with
  | nil => exact ⟨Nat.le_refl _, fun _ _ impossible => nomatch impossible⟩
  | cons index rest ih =>
      rw [List.foldl_cons]
      by_cases stays : (used.contains index || waits txs used index) = true
      · rw [if_pos stays]
        obtain ⟨grown, stopped⟩ := @ih used
        refine ⟨grown, fun same => List.forall_mem_cons.mpr ⟨?_, stopped same⟩⟩
        rw [Bool.or_eq_true] at stays
        exact stays.imp_left (fun listed => by simpa using listed)
      · rw [if_neg stays]
        have grown := (@ih (used ++ [index])).1
        rw [List.length_append, List.length_singleton] at grown
        exact ⟨Nat.le_of_succ_le grown, fun same => absurd same (by omega)⟩

/-- A pass takes nothing back. -/
theorem length_orderPass (txs : List Tx) (used : List Nat) :
    used.length ≤ (orderPass txs used).length :=
  (foldl_stopped (List.range txs.length)).1

/-- The loop ends with a pass that places nothing when it has more turns left than
there are transactions to place. -/
theorem orderLoop_stopped (placed : Placed txs used) {fuel : Nat}
    (enough : txs.length < used.length + fuel) :
    (orderPass txs (orderLoop txs fuel used)).length = (orderLoop txs fuel used).length := by
  induction fuel generalizing used with
  | zero => exact absurd enough (Nat.not_lt.mpr placed.length_le)
  | succ fuel ih =>
      rw [orderLoop]
      split
      next same => exact same
      next grew =>
        refine ih placed.pass ?_
        have longer := length_orderPass txs used
        omega

/-- More turns change nothing. -/
theorem orderLoop_more (placed : Placed txs used) {fuel : Nat}
    (enough : txs.length < used.length + fuel) (more : Nat) :
    orderLoop txs (fuel + more) used = orderLoop txs fuel used := by
  induction fuel generalizing used with
  | zero => exact absurd enough (Nat.not_lt.mpr placed.length_le)
  | succ fuel ih =>
      rw [Nat.succ_add, orderLoop, orderLoop]
      split
      · rfl
      next grew =>
        refine ih placed.pass ?_
        have longer := length_orderPass txs used
        omega

/-! ## The order -/

/-- What is left over joins what is placed to all indices. -/
theorem Placed.perm (placed : Placed txs used) :
    (used ++ (List.range txs.length).filter fun index => !used.contains index).Perm
      (List.range txs.length) := by
  have left : ∀ index, index ∈ (List.range txs.length).filter (fun index => !used.contains index) ↔
      index < txs.length ∧ index ∉ used := by
    intro index
    simp
  refine (List.perm_ext_iff_of_nodup (List.nodup_append.mpr ⟨placed.distinct,
    List.nodup_range.filter _, ?_⟩) List.nodup_range).mpr ?_
  · rintro index listed _ beyond rfl
    exact ((left index).mp beyond).2 listed
  · intro index
    rw [List.mem_append, left, List.mem_range]
    constructor
    · rintro (listed | ⟨bound, _⟩)
      · exact placed.bounded index listed
      · exact bound
    · intro bound
      by_cases listed : index ∈ used
      · exact .inl listed
      · exact .inr ⟨bound, listed⟩

/-- Every transaction is offered once. -/
theorem orderTxs_perm (txs : List Tx) : (orderTxs txs).Perm txs := by
  have all := ((Placed.empty txs).loop (txs.length + 1)).perm.filterMap fun index => txs[index]?
  have whole := placedTxs_range txs
  rw [placedTxs] at whole
  rwa [whole] at all

/-- When a pass places nothing, what is placed are the transactions that depend on no
cycle. -/
theorem Placed.mem_iff (placed : Placed txs used) (distinct : txs.Nodup)
    (stopped : (orderPass txs used).length = used.length) {tx : Tx} (member : tx ∈ txs) :
    tx ∈ placedTxs txs used ↔ ¬DependsOnCycle (SpendsAmong txs) tx := by
  have idle := (foldl_stopped (List.range txs.length)).2 stopped
  have stuck : ∀ child ∈ txs, child ∉ placedTxs txs used →
      ∃ parent ∈ txs, SpendsAmong txs child parent ∧ parent ∉ placedTxs txs used := by
    intro child listed missing
    obtain ⟨index, bound, rfl⟩ := List.getElem_of_mem listed
    rw [getElem_mem_placedTxs distinct bound] at missing
    have waiting := (idle index (List.mem_range.mpr bound)).resolve_left missing
    obtain ⟨other, inside, apart, absent, named⟩ := (waits_iff bound).mp waiting
    refine ⟨txs[other], List.getElem_mem inside,
      ⟨listed, List.getElem_mem inside, fun same => apart ?_, named⟩, ?_⟩
    · exact ((distinct.getElem_inj_iff).mp same).symm
    · rwa [getElem_mem_placedTxs distinct inside]
  constructor
  · intro here
    exact (placed.first.settled here).not_dependsOnCycle
  · intro free
    exact NeedsFirst.mem_of_stuck stuck member
      (Settled.of_not_dependsOnCycle (fun _ _ needs => ⟨needs.1, needs.2.1⟩) free)

/-- **Parents first.** The ordering loop ends, it offers every transaction once, and
those that depend on no cycle come first, each after all it spends. Without a cycle
that is all of them. -/
theorem mempool_order (distinct : (txs.map Tx.txid).Nodup) :
    (∀ more, orderLoop txs (txs.length + 1 + more) [] = orderLoop txs (txs.length + 1) []) ∧
    (orderTxs txs).Perm txs ∧
    (∃ front back, orderTxs txs = front ++ back ∧ NeedsFirst (SpendsAmong txs) front ∧
      ∀ tx ∈ txs, tx ∈ front ↔ ¬DependsOnCycle (SpendsAmong txs) tx) ∧
    ((∀ tx ∈ txs, ¬Relation.TransGen (SpendsAmong txs) tx tx) →
      NeedsFirst (SpendsAmong txs) (orderTxs txs)) := by
  have enough : txs.length < ([] : List Nat).length + (txs.length + 1) := by
    rw [List.length_nil, Nat.zero_add]
    exact Nat.lt_succ_self _
  have different : txs.Nodup := distinct.of_map
  have placed := (Placed.empty txs).loop (txs.length + 1)
  have stopped := orderLoop_stopped (Placed.empty txs) enough
  have order : orderTxs txs = placedTxs txs (orderLoop txs (txs.length + 1) [] ++
      (List.range txs.length).filter fun index =>
        !(orderLoop txs (txs.length + 1) []).contains index) := rfl
  have perm := orderTxs_perm txs
  rw [placedTxs_append] at order
  have mem_front := fun tx => @Placed.mem_iff _ _ placed different stopped tx
  refine ⟨orderLoop_more (Placed.empty txs) enough, perm, ⟨_, _, order, placed.first, mem_front⟩,
    ?_⟩
  intro acyclic
  have nothingLeft : placedTxs txs ((List.range txs.length).filter fun index =>
      !(orderLoop txs (txs.length + 1) []).contains index) = [] := by
    refine List.eq_nil_iff_forall_not_mem.mpr fun tx left => ?_
    have once := perm.nodup_iff.mpr different
    rw [order] at once
    have member : tx ∈ txs := by
      refine perm.mem_iff.mp ?_
      rw [order]
      exact List.mem_append_right _ left
    refine List.disjoint_of_nodup_append once ((mem_front tx member).mpr ?_) left
    rintro ⟨looped, _, loop⟩
    obtain ⟨_, spends, _⟩ := Relation.TransGen.head'_iff.mp loop
    exact acyclic looped spends.1 loop
  rw [order, nothingLeft, List.append_nil]
  exact placed.first

section Family

private def parentTx : Tx where
  txid := Digest.ofPrefix [1]

private def childTx : Tx where
  txid := Digest.ofPrefix [2]
  inputs := [⟨Digest.ofPrefix [1], 0, [], []⟩]

theorem mempool_order_family :
    (orderTxs [childTx, parentTx]).Perm [childTx, parentTx] ∧
      orderTxs [childTx, parentTx] = [parentTx, childTx] :=
  ⟨(mempool_order (by decide +kernel)).2.1, by rfl⟩

end Family

end PiSecure
