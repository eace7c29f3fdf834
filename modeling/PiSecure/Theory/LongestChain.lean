import PiSecure.Theory.Disk

/-! # The longest chain of a scan

What the walk back and the choice among all tips come to, for any blocks that a
scan finds: unverified heights and links, hashes that are stored twice, parents
that are missing, and cycles.
-/

namespace PiSecure

/-! ## Chains of a scan -/

section Chains

variable (found : List FoundBlock)

/-- A block that counts for its hash: none with the same hash was stored before it. -/
def Represents (block : FoundBlock) : Prop :=
  block ∈ found ∧ ∀ other ∈ found, other.hash = block.hash → block.index ≤ other.index

/-- Blocks that count for their hashes, with heights from 1 on and each the parent of
the next one, up to a tip. -/
structure LinkedTo (tip : Digest) (chain : List FoundBlock) : Prop where
  represented : ∀ block ∈ chain, Represents found block
  linked : linked chain 1 Digest.zero = true
  ends : chain.getLast?.map FoundBlock.hash = some tip

/-- Such blocks of which only the first one has the link that stands for no parent. -/
structure ChainTo (tip : Digest) (chain : List FoundBlock) : Prop extends
    LinkedTo found tip chain where
  rooted : ∀ block ∈ chain.tail, block.prev ≠ Digest.zero

/-- A chain that no other one is higher than, and that ends first among those of its
height. -/
structure Tallest (chain : List FoundBlock) : Prop where
  chainTo : ∃ tip, ChainTo found tip chain
  above : ∀ tip other, ChainTo found tip other → ∀ last ∈ chain.getLast?,
    ∀ otherLast ∈ other.getLast?, otherLast.height ≤ last.height ∧
      (otherLast.height = last.height → last.index ≤ otherLast.index)

end Chains

variable {found : List FoundBlock} {tip : Digest} {chain : List FoundBlock}

/-! ## Hashes and their blocks -/

/-- Of a hash that is stored more than once, the map holds the block stored first. -/
theorem byHash_least {hash : Digest} {block : FoundBlock}
    (picked : byHash found hash = some block) :
    ∀ other ∈ found, other.hash = hash → block.index ≤ other.index := by
  induction found using List.reverseRecOn generalizing block with
  | nil => exact fun _ impossible => nomatch impossible
  | append_singleton front last ih =>
      rw [byHash, List.foldl_append, List.foldl_cons, List.foldl_nil] at picked
      change firstStored hash (byHash front hash) last = some block at picked
      intro other member named
      unfold firstStored at picked
      split at picked
      next apart =>
        rcases List.mem_append.mp member with older | isLast
        · exact ih picked other older named
        · exact absurd (List.mem_singleton.mp isLast ▸ named) apart
      next isNamed =>
        split at picked
        next none =>
          cases picked
          rcases List.mem_append.mp member with older | isLast
          · have there := byHash_isSome older
            rw [named, none] at there
            cases there
          · exact Nat.le_of_eq (congrArg FoundBlock.index (List.mem_singleton.mp isLast).symm)
        next earlier before =>
          split at picked
          next lower =>
            cases picked
            rcases List.mem_append.mp member with older | isLast
            · exact Nat.le_trans (Nat.le_of_lt lower) (ih before other older named)
            · exact Nat.le_of_eq (congrArg FoundBlock.index (List.mem_singleton.mp isLast).symm)
          next higher =>
            have same : byHash front hash = some block := picked
            rw [before] at same
            cases same
            rcases List.mem_append.mp member with older | isLast
            · exact ih before other older named
            · rw [List.mem_singleton.mp isLast]
              exact Nat.not_lt.mp higher

/-- The block of a hash is the one that counts for it. -/
theorem byHash_eq_some (distinct : (found.map FoundBlock.index).Nodup) {hash : Digest}
    {block : FoundBlock} :
    byHash found hash = some block ↔ Represents found block ∧ block.hash = hash := by
  constructor
  · intro picked
    obtain ⟨member, named⟩ := byHash_mem picked
    exact ⟨⟨member, fun other listed same => byHash_least picked other listed (same.trans named)⟩,
      named⟩
  · rintro ⟨⟨member, least⟩, rfl⟩
    obtain ⟨other, picked⟩ := Option.isSome_iff_exists.mp (byHash_isSome member)
    obtain ⟨listed, named⟩ := byHash_mem picked
    have place := Nat.le_antisymm (byHash_least picked block member rfl) (least other listed named)
    rw [picked, List.inj_on_of_nodup_map distinct listed member place]

/-- A scan finds each block at a place of its own. -/
theorem loadFoundBlocks_indices (host : Host) (frames : List Payload) :
    ((loadFoundBlocks host frames).map FoundBlock.index).Nodup := by
  have index : ∀ {place : Payload × Nat} {block : FoundBlock},
      foundBlock host place.2 place.1 = some block → block.index = place.2 := by
    intro place block read
    simp only [foundBlock, Option.bind_eq_bind, Option.bind_eq_some_iff, Option.pure_def,
      Option.some.injEq] at read
    obtain ⟨_, _, _, _, _, _, _, _, rfl⟩ := read
    rfl
  change ((frames.zipIdx.filterMap fun place => foundBlock host place.2 place.1).map
    FoundBlock.index).Nodup
  have places : (frames.zipIdx.map Prod.snd).Nodup := by
    rw [List.zipIdx_map_snd]
    exact List.nodup_range'
  refine List.Nodup.sublist ?_ places
  induction frames.zipIdx with
  | nil => exact List.Sublist.refl _
  | cons place rest ih =>
      rw [List.filterMap_cons, List.map_cons]
      cases read : foundBlock host place.2 place.1 with
      | none => exact ih.cons _
      | some block =>
          rw [← index read]
          exact ih.cons_cons _

/-! ## The walk back -/

theorem linked_append_block {front : List FoundBlock} {block : FoundBlock} {expect : Nat}
    {expectPrev : Digest} :
    linked (front ++ [block]) expect expectPrev = true ↔
      linked front expect expectPrev = true ∧ block.height = expect + front.length ∧
        block.prev = (front.getLast?.map FoundBlock.hash).getD expectPrev := by
  induction front generalizing expect expectPrev with
  | nil =>
      rw [List.nil_append, linked_cons]
      exact ⟨fun all => ⟨rfl, all.1, all.2.1⟩, fun all => ⟨all.2.1, all.2.2, rfl⟩⟩
  | cons first rest ih =>
      have last : ((first :: rest).getLast?.map FoundBlock.hash).getD expectPrev =
          (rest.getLast?.map FoundBlock.hash).getD first.hash := by
        rw [List.getLast?_cons]
        cases rest.getLast? <;> rfl
      rw [List.cons_append, linked_cons, linked_cons, ih, last, List.length_cons, and_assoc,
        and_assoc, Nat.add_right_comm, Nat.add_assoc]

namespace ChainTo

theorem ne_nil (chainTo : ChainTo found tip chain) : chain ≠ [] := by
  rintro rfl
  cases chainTo.ends

/-- The heights of linked blocks differ. -/
theorem nodup (chainTo : ChainTo found tip chain) : chain.Nodup := by
  have heights : chain.map FoundBlock.height = List.range' 1 chain.length := by
    have counted : ∀ {items : List FoundBlock} {expect : Nat} {prev : Digest},
        PiSecure.linked items expect prev = true →
          items.map FoundBlock.height = List.range' expect items.length := by
      intro items
      induction items with
      | nil => exact fun _ => rfl
      | cons item rest ih =>
          intro expect prev follows
          obtain ⟨height, _, later⟩ := linked_cons.mp follows
          rw [List.map_cons, List.length_cons, List.range'_succ, height, ih later]
    exact counted chainTo.linked
  refine List.Nodup.of_map FoundBlock.height ?_
  rw [heights]
  exact List.nodup_range'

/-- There are no more linked blocks than were found. -/
theorem length_le (chainTo : ChainTo found tip chain) : chain.length ≤ found.length :=
  (chainTo.nodup.subperm fun block member => (chainTo.represented block member).1).length_le

/-- The walk back finds a chain that is there. -/
theorem walkBack_eq (distinct : (found.map FoundBlock.index).Nodup)
    (chainTo : ChainTo found tip chain) {fuel : Nat} (enough : chain.length ≤ fuel) :
    walkBack found fuel tip = some chain := by
  induction chain using List.reverseRecOn generalizing tip fuel with
  | nil => exact absurd rfl chainTo.ne_nil
  | append_singleton front last ih =>
      obtain ⟨⟨represented, linked, ends⟩, rooted⟩ := chainTo
      obtain ⟨before, _, prev⟩ := linked_append_block.mp linked
      rw [List.getLast?_concat, Option.map_some, Option.some.injEq] at ends
      have picked := (byHash_eq_some distinct).mpr
        ⟨represented last (List.mem_append_right _ (List.mem_singleton_self _)), ends⟩
      rw [List.length_append, List.length_singleton] at enough
      obtain ⟨rest, rfl⟩ : ∃ rest, fuel = rest + 1 := ⟨fuel - 1, by omega⟩
      rw [walkBack, picked]
      dsimp only
      rcases List.eq_nil_or_concat' front with rfl | ⟨others, parent, rfl⟩
      · have none : isZero last.prev = true := (isZero_iff _).mpr prev
        rw [none, if_pos rfl]
        rfl
      · rw [List.getLast?_concat] at prev
        have tail : (others ++ [parent] ++ [last]).tail = (others ++ [parent]).tail ++ [last] :=
          List.tail_append_of_ne_nil (by simp)
        rw [tail] at rooted
        have hasParent : isZero last.prev = false := by
          rw [Bool.eq_false_iff, Ne, isZero_iff]
          exact rooted last (List.mem_append_right _ (List.mem_singleton_self _))
        have frontTo : ChainTo found last.prev (others ++ [parent]) :=
          ⟨⟨fun block member => represented block (List.mem_append_left _ member), before, by
            rw [List.getLast?_concat, prev]
            rfl⟩, fun block member => rooted block (List.mem_append_left _ member)⟩
        rw [hasParent, if_neg Bool.false_ne_true, ih frontTo (by omega)]
        rfl

end ChainTo

/-- What the walk back finds counts for its hashes, and only its first block has no
parent. -/
theorem walkBack_rooted (distinct : (found.map FoundBlock.index).Nodup) {fuel : Nat}
    (walked : walkBack found fuel tip = some chain) :
    (∀ block ∈ chain, Represents found block) ∧ ∀ block ∈ chain.tail, block.prev ≠ Digest.zero := by
  induction fuel generalizing tip chain with
  | zero => cases walked
  | succ fuel ih =>
      rw [walkBack] at walked
      split at walked
      · cases walked
      next block picked =>
        have represents := ((byHash_eq_some distinct).mp picked).1
        split at walked
        · cases walked
          exact ⟨List.forall_mem_singleton.mpr represents, List.forall_mem_nil _⟩
        next child =>
          obtain ⟨front, earlier, rfl⟩ := Option.map_eq_some_iff.mp walked
          obtain ⟨represented, rooted⟩ := ih earlier
          have nonempty : front ≠ [] := by
            rintro rfl
            cases (walkBack_mem earlier).2
          refine ⟨?_, ?_⟩
          · intro other member
            rcases List.mem_append.mp member with inFront | isLast
            · exact represented other inFront
            · exact List.mem_singleton.mp isLast ▸ represents
          · rw [List.tail_append_of_ne_nil nonempty]
            intro other member
            rcases List.mem_append.mp member with inFront | isLast
            · exact rooted other inFront
            · rw [List.mem_singleton.mp isLast, Ne, ← isZero_iff]
              exact child

/-- The chain that ends at a hash is the chain of the scan that does, or nothing. -/
theorem chainTo_iff (distinct : (found.map FoundBlock.index).Nodup) :
    ChainTo found tip chain ↔ chain ≠ [] ∧ chainEndingAt found tip = chain := by
  constructor
  · intro chainTo
    refine ⟨chainTo.ne_nil, ?_⟩
    rw [chainEndingAt, chainTo.walkBack_eq distinct (Nat.le_succ_of_le chainTo.length_le)]
    exact if_pos chainTo.linked
  · rintro ⟨nonempty, same⟩
    unfold chainEndingAt at same
    split at same
    · exact absurd same.symm nonempty
    next walk walked =>
      split at same
      next follows =>
        subst same
        obtain ⟨represented, rooted⟩ := walkBack_rooted distinct walked
        exact ⟨⟨represented, follows, (walkBack_mem walked).2⟩, rooted⟩
      · exact absurd same.symm nonempty

/-! ## The choice -/

/-- The last of linked blocks has as many blocks below it as its height says. -/
theorem getLast_height (follows : linked chain 1 Digest.zero = true) {last : FoundBlock}
    (ends : last ∈ chain.getLast?) : last.height = chain.length := by
  obtain ⟨front, rfl⟩ := List.getLast?_eq_some_iff.mp ends
  rw [(linked_append_block.mp follows).2.1, List.length_append, List.length_singleton, Nat.add_comm]

/-- A candidate without a chain changes nothing. -/
theorem betterChain_nil {candidate : FoundBlock} (none : chainEndingAt found candidate.hash = [])
    (best : Option (FoundBlock × Nat)) : betterChain found best candidate = best := by
  rw [betterChain, none]
  rfl

/-- A candidate with a chain is better than none, than a lower one, and than one of
its height that was stored after it. -/
theorem betterChain_some {candidate : FoundBlock}
    (nonempty : chainEndingAt found candidate.hash ≠ []) :
    betterChain found none candidate =
        some (candidate, (chainEndingAt found candidate.hash).length) ∧
      ∀ current height, betterChain found (some (current, height)) candidate =
        if (chainEndingAt found candidate.hash).length > height ∨
            ((chainEndingAt found candidate.hash).length = height ∧
              candidate.index < current.index) then
          some (candidate, (chainEndingAt found candidate.hash).length)
        else some (current, height) := by
  have ends := List.getLast?_eq_some_getLast nonempty
  have tall := getLast_height (chainEndingAt_spec found candidate.hash).2 ends
  unfold betterChain
  dsimp only
  rw [ends]
  dsimp only
  rw [tall, if_neg (not_not.mpr rfl)]
  exact ⟨rfl, fun _ _ => if_neg (not_not.mpr rfl)⟩

/-- What the choice has found among the candidates seen so far. -/
structure BestOf (found seen : List FoundBlock) (best : FoundBlock) (height : Nat) : Prop where
  listed : best ∈ seen
  chain : chainEndingAt found best.hash ≠ []
  height_eq : (chainEndingAt found best.hash).length = height
  above : ∀ candidate ∈ seen, (chainEndingAt found candidate.hash).length ≤ height ∧
    ((chainEndingAt found candidate.hash).length = height → best.index ≤ candidate.index)

/-- The choice among candidates: nothing when none has a chain, else a best one. -/
theorem foldl_betterChain (found seen : List FoundBlock) :
    (seen.foldl (betterChain found) none = none ∧
        ∀ candidate ∈ seen, chainEndingAt found candidate.hash = []) ∨
      ∃ best height, seen.foldl (betterChain found) none = some (best, height) ∧
        BestOf found seen best height := by
  induction seen using List.reverseRecOn with
  | nil => exact .inl ⟨rfl, List.forall_mem_nil _⟩
  | append_singleton front last ih =>
      have splitLast : ∀ {holds : FoundBlock → Prop}, (∀ block ∈ front, holds block) → holds last →
          ∀ block ∈ front ++ [last], holds block := by
        intro holds before here
        rw [List.forall_mem_append]
        exact ⟨before, List.forall_mem_singleton.mpr here⟩
      have isLast : last ∈ front ++ [last] := List.mem_append_right _ (List.mem_singleton_self _)
      rw [List.foldl_append, List.foldl_cons, List.foldl_nil]
      by_cases empty : chainEndingAt found last.hash = []
      · rw [betterChain_nil empty]
        rcases ih with ⟨same, nothing⟩ | ⟨best, height, same, isBest⟩
        · exact .inl ⟨same, splitLast nothing empty⟩
        · refine .inr ⟨best, height, same, List.mem_append_left _ isBest.listed, isBest.chain,
            isBest.height_eq, splitLast isBest.above ?_⟩
          have positive := List.length_pos_iff.mpr isBest.chain
          rw [empty, List.length_nil]
          exact ⟨Nat.zero_le _, fun zero => absurd (isBest.height_eq.trans zero.symm) (by omega)⟩
      · obtain ⟨first, other⟩ := betterChain_some empty
        rcases ih with ⟨same, nothing⟩ | ⟨best, height, same, isBest⟩
        · rw [same, first]
          refine .inr ⟨last, _, rfl, isLast, empty, rfl, splitLast (fun block member => ?_)
            ⟨Nat.le_refl _, fun _ => Nat.le_refl _⟩⟩
          have positive := List.length_pos_iff.mpr empty
          rw [nothing block member, List.length_nil]
          exact ⟨Nat.zero_le _, fun zero => absurd zero (by omega)⟩
        · rw [same, other]
          split
          next better =>
            refine .inr ⟨last, _, rfl, isLast, empty, rfl, splitLast (fun block member => ?_)
              ⟨Nat.le_refl _, fun _ => Nat.le_refl _⟩⟩
            obtain ⟨bound, tied⟩ := isBest.above block member
            refine ⟨by omega, fun even => ?_⟩
            have level : (chainEndingAt found block.hash).length = height := by omega
            have below := tied level
            omega
          next worse =>
            exact .inr ⟨best, height, rfl, List.mem_append_left _ isBest.listed, isBest.chain,
              isBest.height_eq, splitLast isBest.above (by omega)⟩

/-- What the best candidate leads to is a tallest chain. -/
theorem BestOf.tallest (distinct : (found.map FoundBlock.index).Nodup) {best : FoundBlock}
    {height : Nat} (isBest : BestOf found found best height) :
    Tallest found (chainEndingAt found best.hash) := by
  have chosen := (chainTo_iff distinct).mpr ⟨isBest.chain, rfl⟩
  refine ⟨⟨_, chosen⟩, fun tip other otherTo last ends otherLast otherEnds => ?_⟩
  have hash : last.hash = best.hash := by
    have named := chosen.ends
    rw [ends] at named
    exact Option.some.inj named
  have otherHash : otherLast.hash = tip := by
    have named := otherTo.ends
    rw [otherEnds] at named
    exact Option.some.inj named
  have lastRepresents := chosen.represented last (List.mem_of_getLast? ends)
  have otherRepresents := otherTo.represented otherLast (List.mem_of_getLast? otherEnds)
  obtain ⟨bound, tied⟩ := isBest.above otherLast otherRepresents.1
  rw [otherHash, ((chainTo_iff distinct).mp otherTo).2] at bound tied
  rw [getLast_height otherTo.linked otherEnds, getLast_height chosen.linked ends, isBest.height_eq]
  refine ⟨bound, fun level => Nat.le_trans ?_ (tied level)⟩
  exact lastRepresents.2 best isBest.listed hash.symm

/-- **The longest chain.** For any blocks of a scan, the chain that ends at a hash is
the one of the scan that does, or empty when there is none; and the chosen chain is a
tallest one, or empty when there is none at all. -/
theorem longest_chain (distinct : (found.map FoundBlock.index).Nodup) :
    (∀ tip chain, ChainTo found tip chain → chainEndingAt found tip = chain) ∧
    (∀ tip, (∀ chain, ¬ChainTo found tip chain) → chainEndingAt found tip = []) ∧
    (Tallest found (chooseLongestChain found) ∨
      chooseLongestChain found = [] ∧ ∀ tip chain, ¬ChainTo found tip chain) := by
  refine ⟨fun tip chain chainTo => ((chainTo_iff distinct).mp chainTo).2, ?_, ?_⟩
  · intro tip nothing
    by_contra nonempty
    exact nothing _ ((chainTo_iff distinct).mpr ⟨nonempty, rfl⟩)
  · rcases foldl_betterChain found found with ⟨same, nothing⟩ | ⟨best, height, same, isBest⟩
    · refine .inr ⟨by rw [chooseLongestChain, same], fun tip chain chainTo => ?_⟩
      obtain ⟨nonempty, whole⟩ := (chainTo_iff distinct).mp chainTo
      obtain ⟨last, ends, named⟩ := Option.map_eq_some_iff.mp chainTo.ends
      have none := nothing last (chainTo.represented last (List.mem_of_getLast? ends)).1
      rw [named, whole] at none
      exact nonempty none
    · rw [chooseLongestChain, same]
      exact .inl (isBest.tallest distinct)

section ZeroHash

/-- A block whose hash is the link that stands for no parent. -/
private def zeroBlock : FoundBlock := ⟨0, 1, Digest.zero, Digest.zero, .null⟩

private def zeroChild : FoundBlock := ⟨1, 2, Digest.zero, Digest.ofPrefix [1], .null⟩

theorem longest_chain_single :
    Tallest [zeroBlock, zeroChild] (chooseLongestChain [zeroBlock, zeroChild]) ∧
      (chooseLongestChain [zeroBlock, zeroChild]).map FoundBlock.hash = [Digest.zero] := by
  have chosen :
      (chooseLongestChain [zeroBlock, zeroChild]).map FoundBlock.hash = [Digest.zero] := by
    decide +kernel
  refine ⟨(longest_chain (by decide)).2.2.resolve_right ?_, chosen⟩
  rintro ⟨none, _⟩
  rw [none] at chosen
  cases chosen

/-- A block whose parent was stored under the all-zero hash ends no chain. -/
theorem zero_parent_ends_walk :
    ¬∀ (found : List FoundBlock) (tip : Digest) (chain : List FoundBlock),
      (found.map FoundBlock.index).Nodup → LinkedTo found tip chain →
        chainEndingAt found tip = chain := by
  intro found
  have chain : LinkedTo [zeroBlock, zeroChild] (Digest.ofPrefix [1]) [zeroBlock, zeroChild] := by
    refine ⟨?_, by decide +kernel, rfl⟩
    simp only [List.forall_mem_cons]
    refine ⟨⟨List.mem_cons_self, ?_⟩, ⟨List.mem_cons_of_mem _ List.mem_cons_self, ?_⟩,
      List.forall_mem_nil _⟩
    · exact fun other _ _ => Nat.zero_le _
    · simp only [List.forall_mem_cons]
      exact ⟨fun same => absurd same (by decide +kernel), fun _ => Nat.le_refl _,
        List.forall_mem_nil _⟩
  have walked := congrArg List.length (found _ _ _ (by decide) chain)
  revert walked
  decide +kernel

end ZeroHash

end PiSecure
