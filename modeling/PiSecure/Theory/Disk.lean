import PiSecure.Theory.Replay

/-! # Which chain is found on disk

When the hashes of the stored blocks are distinct, the walk back from a block
finds the chain that it extends, and the chain chosen on startup ends with the
block stored first among those of the greatest height.
-/

namespace PiSecure

variable {host : Host}

/-- The stored documents of connected blocks. -/
def documents (log : List (Accepted host)) : List Payload :=
  log.map fun accepted => .doc accepted.stored

/-- Blocks of a log, each with its place. -/
def ListedIn (log : List (Accepted host)) (chain : List (Accepted host × Nat)) : Prop :=
  ∀ place ∈ chain, log[place.2]? = some place.1

theorem ListedIn.front {log : List (Accepted host)} {chain more : List (Accepted host × Nat)}
    (listed : ListedIn log (chain ++ more)) : ListedIn log chain :=
  fun place member => listed place (List.mem_append_left _ member)

theorem ListedIn.grow {log : List (Accepted host)} {chain : List (Accepted host × Nat)}
    (listed : ListedIn log chain) (more : List (Accepted host)) : ListedIn (log ++ more) chain := by
  intro place member
  have found := listed place member
  rw [List.getElem?_append_left (List.getElem?_eq_some_iff.mp found).1]
  exact found

/-! ## The walk back -/

section Walk

variable {found : List FoundBlock}

theorem byHash_isSome {block : FoundBlock} (member : block ∈ found) :
    (byHash found block.hash).isSome := by
  induction found using List.reverseRecOn with
  | nil => cases member
  | append_singleton front last ih =>
      rw [byHash, List.foldl_append, List.foldl_cons, List.foldl_nil]
      change (firstStored block.hash (byHash front block.hash) last).isSome
      unfold firstStored
      split
      next other =>
        rcases List.mem_append.mp member with older | isLast
        · exact ih older
        · exact absurd (List.mem_singleton.mp isLast ▸ rfl) other
      · split
        · rfl
        next earlier picked =>
          split
          · rfl
          · rw [picked]
            rfl

/-- A hash that is stored once leads to its block. -/
theorem byHash_documents {log : List (Accepted host)} (distinct : (log.map Accepted.hash).Nodup)
    {index : Nat} {accepted : Accepted host} (listed : log[index]? = some accepted) :
    byHash (loadFoundBlocks host (documents log)) accepted.hash = some (accepted.found index) := by
  have member : accepted.found index ∈ loadFoundBlocks host (documents log) := by
    rw [documents, loadFoundBlocks_log]
    exact List.mem_map.mpr ⟨(accepted, index), List.mk_mem_zipIdx_iff_getElem?.mpr listed, rfl⟩
  obtain ⟨block, picked⟩ := Option.isSome_iff_exists.mp (byHash_isSome member)
  obtain ⟨isFound, named⟩ := byHash_mem picked
  obtain ⟨other, place, placed, rfl⟩ := mem_loadFoundBlocks isFound
  have same : place = index := by
    obtain ⟨below, rfl⟩ := List.getElem?_eq_some_iff.mp listed
    obtain ⟨placeBelow, rfl⟩ := List.getElem?_eq_some_iff.mp placed
    refine (@List.Nodup.getElem_inj_iff _ _ distinct _ ?_ _ ?_).mp ?_
    · rwa [List.length_map]
    · rwa [List.length_map]
    · rw [List.getElem_map, List.getElem_map]
      exact named
  subst same
  rw [listed] at placed
  cases placed
  exact picked

theorem tipHash_ne_zero {log : List (Accepted host)}
    (proper : ∀ accepted ∈ log, accepted.hash ≠ Digest.zero) {chain : List (Accepted host × Nat)}
    (listed : ListedIn log chain) (nonempty : chain ≠ []) :
    isZero (tipHash (chain.map Prod.fst)) = false := by
  obtain ⟨front, ⟨accepted, index⟩, rfl⟩ := (List.eq_nil_or_concat chain).resolve_left nonempty
  rw [List.concat_eq_append] at listed ⊢
  rw [Bool.eq_false_iff, Ne, isZero_iff, List.map_append, List.map_singleton, tipHash_append]
  exact proper accepted (List.mem_of_getElem?
    (listed _ (List.mem_append_right _ (List.mem_singleton_self _))))

/-- The walk back from the last block of a chain is the chain. -/
theorem walkBack_chain {log : List (Accepted host)} (distinct : (log.map Accepted.hash).Nodup)
    (proper : ∀ accepted ∈ log, accepted.hash ≠ Digest.zero)
    {chain : List (Accepted host × Nat)} (listed : ListedIn log chain)
    (linked : Linked (chain.map Prod.fst)) (nonempty : chain ≠ []) {fuel : Nat}
    (enough : chain.length ≤ fuel) :
    walkBack (loadFoundBlocks host (documents log)) fuel (tipHash (chain.map Prod.fst)) =
      some (scanned chain) := by
  induction chain using List.reverseRecOn generalizing fuel with
  | nil => exact absurd rfl nonempty
  | append_singleton front last ih =>
      obtain ⟨accepted, index⟩ := last
      have placed : log[index]? = some accepted :=
        listed (accepted, index) (List.mem_append_right _ (List.mem_singleton_self _))
      rw [List.length_append, List.length_singleton] at enough
      rw [List.map_append, List.map_singleton] at linked ⊢
      obtain ⟨before, _, prev⟩ := linked_append_singleton.mp linked
      rw [tipHash_append]
      obtain ⟨rest, rfl⟩ : ∃ rest, fuel = rest + 1 := ⟨fuel - 1, by omega⟩
      rw [walkBack, byHash_documents distinct placed]
      dsimp only
      have parent : (accepted.found index).prev = tipHash (front.map Prod.fst) := prev
      rw [parent]
      by_cases none : front = []
      · subst none
        rfl
      · rw [tipHash_ne_zero proper listed.front none, if_neg Bool.false_ne_true,
          ih listed.front before none (by omega), Option.map_some, scanned, scanned,
          List.map_append]
        rfl

/-- A chain of stored blocks is no longer than the log. -/
theorem ListedIn.length_le {log : List (Accepted host)} {chain : List (Accepted host × Nat)}
    (listed : ListedIn log chain) (linked : Linked (chain.map Prod.fst)) :
    chain.length ≤ log.length := by
  have places : (chain.map Prod.snd).Nodup := by
    rw [List.nodup_iff_getElem?_ne_getElem?]
    intro first second ordered below same
    rw [List.length_map] at below
    rw [List.getElem?_map, List.getElem?_map,
      List.getElem?_eq_getElem (Nat.lt_trans ordered below), List.getElem?_eq_getElem below] at same
    have place : chain[first].2 = chain[second].2 := Option.some.inj same
    have firstListed := listed _ (List.getElem_mem (Nat.lt_trans ordered below))
    have secondListed := listed _ (List.getElem_mem below)
    rw [place, secondListed] at firstListed
    have height : ∀ index (inside : index < chain.length), chain[index].1.height = index + 1 :=
      fun index inside => linked.height (by
        rw [List.getElem?_map, List.getElem?_eq_getElem inside]
        rfl)
    have one := height first (Nat.lt_trans ordered below)
    have other := height second below
    rw [← Option.some.inj firstListed, other] at one
    omega
  have bounded : chain.map Prod.snd ⊆ List.range log.length := by
    intro place member
    obtain ⟨pair, inside, rfl⟩ := List.mem_map.mp member
    exact List.mem_range.mpr (List.getElem?_eq_some_iff.mp (listed pair inside)).1
  have count := (places.subperm bounded).length_le
  rwa [List.length_map, List.length_range] at count

/-- The chain that ends at the last block of a chain of stored blocks. -/
theorem chainEndingAt_chain {log : List (Accepted host)}
    (distinct : (log.map Accepted.hash).Nodup)
    (proper : ∀ accepted ∈ log, accepted.hash ≠ Digest.zero)
    {chain : List (Accepted host × Nat)} (listed : ListedIn log chain)
    (linked : Linked (chain.map Prod.fst)) (nonempty : chain ≠ []) :
    chainEndingAt (loadFoundBlocks host (documents log)) (tipHash (chain.map Prod.fst)) =
      scanned chain := by
  have length : (loadFoundBlocks host (documents log)).length = log.length := by
    rw [documents, loadFoundBlocks_log, List.length_map, List.length_zipIdx]
  rw [chainEndingAt, length, walkBack_chain distinct proper listed linked nonempty
    (Nat.le_succ_of_le (listed.length_le linked))]
  exact if_pos ((linked_scanned chain).mpr linked)

/-- A selected chain of a log is a chain of blocks of it. -/
theorem chainEndingAt_listed (log : List (Accepted host)) (tip : Digest) :
    ∃ chain, ListedIn log chain ∧ Linked (chain.map Prod.fst) ∧
      chainEndingAt (loadFoundBlocks host (documents log)) tip = scanned chain := by
  obtain ⟨members, follows⟩ :=
    chainEndingAt_spec (loadFoundBlocks host (documents log)) tip
  generalize chainEndingAt (loadFoundBlocks host (documents log)) tip = items at members follows
  obtain ⟨chain, listed, rfl⟩ : ∃ chain, ListedIn log chain ∧ items = scanned chain := by
    clear follows
    induction items with
    | nil => exact ⟨[], fun _ impossible => (nomatch impossible), rfl⟩
    | cons item rest ih =>
        rw [List.forall_mem_cons] at members
        obtain ⟨accepted, index, placed, rfl⟩ := mem_loadFoundBlocks members.1
        obtain ⟨chain, listed, rfl⟩ := ih members.2
        exact ⟨(accepted, index) :: chain, List.forall_mem_cons.mpr ⟨placed, listed⟩, rfl⟩
  exact ⟨chain, listed, (linked_scanned chain).mp follows, rfl⟩

end Walk

/-! ## The choice -/

/-- The first block of the greatest height. -/
structure Highest (log : List (Accepted host)) (index : Nat) (accepted : Accepted host) : Prop where
  listed : log[index]? = some accepted
  above : ∀ (other : Nat) (block : Accepted host), log[other]? = some block →
    block.height ≤ accepted.height ∧ (block.height = accepted.height → index ≤ other)

namespace Highest

variable {log : List (Accepted host)} {index : Nat} {accepted : Accepted host}

/-- A block above the highest one becomes the highest one. -/
theorem of_above (others : ∀ block ∈ log, block.height < accepted.height) :
    Highest (log ++ [accepted]) log.length accepted where
  listed := by
    rw [List.getElem?_append_right (Nat.le_refl _), Nat.sub_self]
    rfl
  above other block found := by
    rcases List.mem_append.mp (List.mem_of_getElem? found) with older | isLast
    · exact ⟨Nat.le_of_lt (others block older),
        fun same => absurd same (Nat.ne_of_lt (others block older))⟩
    · rw [List.mem_singleton.mp isLast]
      refine ⟨Nat.le_refl _, fun _ => ?_⟩
      by_contra inside
      rw [List.getElem?_append_left (Nat.lt_of_not_le inside)] at found
      have lower := others block (List.mem_of_getElem? found)
      rw [List.mem_singleton.mp isLast] at lower
      exact Nat.lt_irrefl _ lower

/-- Blocks that are no higher leave the highest one in place. -/
theorem keep (highest : Highest log index accepted) {more : List (Accepted host)}
    (lower : ∀ block ∈ more, block.height ≤ accepted.height) :
    Highest (log ++ more) index accepted where
  listed := by
    rw [List.getElem?_append_left (List.getElem?_eq_some_iff.mp highest.listed).1]
    exact highest.listed
  above other block found := by
    rcases Nat.lt_or_ge other log.length with inside | outside
    · rw [List.getElem?_append_left inside] at found
      exact highest.above other block found
    · rw [List.getElem?_append_right outside] at found
      have below := (List.getElem?_eq_some_iff.mp highest.listed).1
      exact ⟨lower block (List.mem_of_getElem? found), fun _ => by omega⟩

theorem front {last : Accepted host} (highest : Highest (log ++ [last]) index accepted) :
    Highest log index accepted ∨
      (index = log.length ∧ accepted = last ∧ ∀ block ∈ log, block.height < last.height) := by
  rcases Nat.lt_or_ge index log.length with inside | outside
  · refine .inl ⟨?_, fun other block found => highest.above other block ?_⟩
    · have listed := highest.listed
      rwa [List.getElem?_append_left inside] at listed
    · rw [List.getElem?_append_left (List.getElem?_eq_some_iff.mp found).1]
      exact found
  · have below := (List.getElem?_eq_some_iff.mp highest.listed).1
    rw [List.length_append, List.length_singleton] at below
    have place : index = log.length := by omega
    subst place
    have listed := highest.listed
    rw [List.getElem?_append_right (Nat.le_refl _), Nat.sub_self] at listed
    cases listed
    refine .inr ⟨rfl, rfl, fun block member => ?_⟩
    obtain ⟨other, inside, rfl⟩ := List.mem_iff_getElem.mp member
    obtain ⟨bound, tied⟩ := highest.above other log[other] (by
      rw [List.getElem?_append_left inside, List.getElem?_eq_getElem inside])
    refine Nat.lt_of_le_of_ne bound fun same => ?_
    exact Nat.lt_irrefl _ (Nat.lt_of_lt_of_le inside (tied same))

/-- A log with a block has a highest one. -/
theorem exists_of_ne_nil (nonempty : log ≠ []) : ∃ index accepted, Highest log index accepted := by
  induction log using List.reverseRecOn with
  | nil => exact absurd rfl nonempty
  | append_singleton front last ih =>
      by_cases none : front = []
      · subst none
        exact ⟨0, last, @of_above _ [] _ fun _ impossible => nomatch impossible⟩
      · obtain ⟨index, accepted, highest⟩ := ih none
        by_cases lower : last.height ≤ accepted.height
        · exact ⟨index, accepted, highest.keep (List.forall_mem_singleton.mpr lower)⟩
        · refine ⟨front.length, last, of_above fun block member => ?_⟩
          obtain ⟨other, inside, rfl⟩ := List.mem_iff_getElem.mp member
          have bound := (highest.above other _ (List.getElem?_eq_getElem inside)).1
          omega

/-- When every block is the end of a chain on disk, the best candidate is the
highest block. -/
theorem best {found : List FoundBlock}
    (ends : ∀ (index : Nat) (accepted : Accepted host), log[index]? = some accepted →
      ∃ front, chainEndingAt found accepted.hash = front ++ [accepted.found index] ∧
        front.length + 1 = accepted.height)
    (highest : Highest log index accepted) :
    (log.zipIdx.map fun (block, place) => block.found place).foldl (betterChain found) none =
      some (accepted.found index, accepted.height) := by
  induction log using List.reverseRecOn generalizing index accepted with
  | nil => cases highest.listed
  | append_singleton front last ih =>
      have endsFront : ∀ (index : Nat) (accepted : Accepted host), front[index]? = some accepted →
          ∃ chain, chainEndingAt found accepted.hash = chain ++ [accepted.found index] ∧
            chain.length + 1 = accepted.height := by
        intro index accepted listed
        refine ends index accepted ?_
        rw [List.getElem?_append_left (List.getElem?_eq_some_iff.mp listed).1]
        exact listed
      obtain ⟨chain, ending, length⟩ := ends front.length last (by
        rw [List.getElem?_append_right (Nat.le_refl _), Nat.sub_self]
        rfl)
      have candidate : betterChain found none (last.found front.length) =
            some (last.found front.length, last.height) ∧
          ∀ current height, betterChain found (some (current, height)) (last.found front.length) =
            if last.height > height ∨ (last.height = height ∧ front.length < current.index) then
              some (last.found front.length, last.height)
            else some (current, height) := by
        have tip : (chain ++ [last.found front.length]).getLast? = some (last.found front.length) :=
          List.getLast?_concat
        have tall : ¬(last.found front.length).height ≠
            (chain ++ [last.found front.length]).length := by
          rw [List.length_append, List.length_singleton, length]
          exact not_not.mpr rfl
        have chained : chainEndingAt found (last.found front.length).hash = _ := ending
        unfold betterChain
        rw [chained]
        dsimp only
        rw [tip]
        dsimp only
        rw [if_neg tall]
        exact ⟨rfl, fun _ _ => if_neg tall⟩
      rw [List.zipIdx_append, List.map_append, List.foldl_append, List.zipIdx_singleton,
        List.map_singleton, List.foldl_cons, List.foldl_nil, Nat.zero_add]
      rcases highest.front with before | ⟨rfl, rfl, others⟩
      · rw [ih endsFront before, candidate.2]
        have inside := (List.getElem?_eq_some_iff.mp before.listed).1
        have bound := (highest.above front.length last (by
          rw [List.getElem?_append_right (Nat.le_refl _), Nat.sub_self]
          rfl)).1
        have later : ¬front.length < (accepted.found index).index :=
          Nat.not_lt.mpr (Nat.le_of_lt inside)
        exact if_neg (not_or.mpr ⟨Nat.not_lt.mpr bound, fun both => later both.2⟩)
      · by_cases none : front = []
        · subst none
          exact candidate.1
        · obtain ⟨other, block, first⟩ := exists_of_ne_nil none
          rw [ih endsFront first, candidate.2]
          exact if_pos (.inl (others block (List.mem_of_getElem? first.listed)))

/-- The chain chosen on startup ends with the highest block. -/
theorem chosen (highest : Highest log index accepted)
    (ends : ∀ (index : Nat) (accepted : Accepted host), log[index]? = some accepted →
      ∃ front, chainEndingAt (loadFoundBlocks host (documents log)) accepted.hash =
          front ++ [accepted.found index] ∧ front.length + 1 = accepted.height) :
    chooseLongestChain (loadFoundBlocks host (documents log)) =
      chainEndingAt (loadFoundBlocks host (documents log)) accepted.hash := by
  have best := highest.best ends
  rw [chooseLongestChain]
  have scan : loadFoundBlocks host (documents log) =
      log.zipIdx.map fun (block, place) => block.found place := by
    rw [documents, loadFoundBlocks_log]
  rw [← scan] at best
  rw [best]
  rfl

end Highest

end PiSecure
