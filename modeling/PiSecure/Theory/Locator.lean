import PiSecure.Model.Locator
import PiSecure.Theory.HeightIndex

/-! # What the locator reaches

The step of the locator never grows: it doubles after more than ten hashes, and the
loop ends at ten. So the locator has the last ten blocks and the filler at height 0,
and a fork below the last ten blocks is not reached.
-/

namespace PiSecure

variable {storage : Storage} {chain : List BlockHeader}

/-- With step one the loop collects the heights down from its own, up to ten hashes. -/
theorem mem_locatorLoop {heightToHash : List Digest} {height : ℕ} {locator : List Digest}
    (listed : height < heightToHash.length) (short : locator.length ≤ 10) (hash : Digest) :
    hash ∈ Storage.locatorLoop heightToHash height 1 Nat.one_pos locator ↔
      hash ∈ locator ∨ ∃ reached, 1 ≤ reached ∧ reached ≤ height ∧
        height < reached + (10 - locator.length) ∧ heightToHash[reached]? = some hash := by
  induction height generalizing locator with
  | zero =>
      rw [Storage.locatorLoop, if_neg fun more => Nat.lt_irrefl 0 more.1]
      refine (or_iff_left ?_).symm
      rintro ⟨reached, positive, none, _⟩
      omega
  | succ height ih =>
      by_cases more : locator.length < 10
      · have row : heightToHash[height + 1]? = some (heightToHash.get ⟨height + 1, listed⟩) :=
          List.getElem?_eq_getElem listed
        have grown : (locator ++ [heightToHash.get ⟨height + 1, listed⟩]).length =
            locator.length + 1 := List.length_append
        rw [Storage.locatorLoop, if_pos ⟨Nat.succ_pos height, more⟩, row, Option.toList_some]
        dsimp only
        rw [if_neg (by omega), if_neg (by rw [grown]; omega), Nat.add_sub_cancel,
          ih (by omega) (by rw [grown]; omega), grown, List.mem_append, List.mem_singleton,
          or_assoc]
        refine or_congr_right ⟨?_, ?_⟩
        · rintro (rfl | ⟨reached, positive, below, near, same⟩)
          · exact ⟨height + 1, Nat.succ_pos height, Nat.le_refl _, by omega, row⟩
          · exact ⟨reached, positive, by omega, by omega, same⟩
        · rintro ⟨reached, positive, below, near, same⟩
          by_cases here : reached = height + 1
          · rw [here, row] at same
            exact Or.inl (Option.some.inj same).symm
          · exact Or.inr ⟨reached, positive, by omega, by omega, same⟩
      · rw [Storage.locatorLoop, if_neg fun wrong => more wrong.2]
        refine (or_iff_left ?_).symm
        rintro ⟨reached, positive, below, near, _⟩
        omega

/-- The locator of a path: its last ten hashes and the filler. -/
theorem mem_locator (path : Path storage.chainIndex chain) (present : 0 < chain.length)
    (hash : Digest) :
    hash ∈ storage.getBlockLocatorHashes ↔ hash = Digest.zero ∨
      ∃ reached, 1 ≤ reached ∧ reached ≤ chain.length ∧ chain.length < reached + 10 ∧
        (chain.map BlockHeader.hash)[reached - 1]? = some hash := by
  have rows := path.rows present
  have bestHeight : storage.bestHeight = chain.length := path.bestHeight
  have listed : chain.length < (indexRows chain).length := by
    rw [length_indexRows]
    omega
  have filler : (indexRows chain).head?.toList = [Digest.zero] := rfl
  have loop := @mem_locatorLoop (indexRows chain) chain.length [] listed (Nat.zero_le 10) hash
  rw [Storage.getBlockLocatorHashes, rows, bestHeight, filler, List.mem_append, List.mem_singleton,
    or_comm, loop]
  refine or_congr_right ?_
  rw [or_iff_right List.not_mem_nil]
  refine exists_congr fun reached => and_congr_right fun positive => ?_
  obtain ⟨place, rfl⟩ := Nat.exists_eq_add_of_le' positive
  exact Iff.rfl

/-- The locator has the hash of an active block at the fork or not far below it. -/
def ReachesFork (storage : Storage) (chain : List BlockHeader) (fork : ℕ) : Prop :=
  ∃ reached, 1 ≤ reached ∧ reached ≤ fork ∧
    chain.length - reached ≤ 2 * (chain.length - fork) + 20 ∧
    ∃ hash ∈ storage.getBlockLocatorHashes, (chain.map BlockHeader.hash)[reached - 1]? = some hash

/-- The fork is among the last ten blocks, or the filler is the hash of a block that
would do. -/
def ForkNearTip (chain : List BlockHeader) (fork : ℕ) : Prop :=
  chain.length < fork + 10 ∨
    ∃ reached, 1 ≤ reached ∧ reached ≤ fork ∧
      chain.length - reached ≤ 2 * (chain.length - fork) + 20 ∧
      (chain.map BlockHeader.hash)[reached - 1]? = some Digest.zero

/-- A hash that the locator has names one block only. -/
theorem forkNearTip_of_reaches (path : Path storage.chainIndex chain) {fork : ℕ}
    (below : fork ≤ chain.length) (reaches : ReachesFork storage chain fork) :
    ForkNearTip chain fork := by
  obtain ⟨reached, positive, under, near, hash, member, row⟩ := reaches
  rcases (mem_locator path (by omega) hash).mp member with
    rfl | ⟨other, otherPositive, _, recent, otherRow⟩
  · exact Or.inr ⟨reached, positive, under, near, row⟩
  · have same : reached - 1 = other - 1 := by
      obtain ⟨inside, atReached⟩ := List.getElem?_eq_some_iff.mp row
      obtain ⟨otherInside, atOther⟩ := List.getElem?_eq_some_iff.mp otherRow
      exact (List.Nodup.getElem_inj_iff path.distinct).mp (atReached.trans atOther.symm)
    exact Or.inl (by omega)

theorem reaches_of_forkNearTip (path : Path storage.chainIndex chain) {fork : ℕ} (above : 1 ≤ fork)
    (below : fork ≤ chain.length) (close : ForkNearTip chain fork) :
    ReachesFork storage chain fork := by
  have named := mem_locator path (by omega)
  rcases close with recent | ⟨reached, positive, under, near, row⟩
  · have inside : fork - 1 < (chain.map BlockHeader.hash).length := by
      rw [List.length_map]
      omega
    have row := List.getElem?_eq_getElem inside
    exact ⟨fork, above, Nat.le_refl _, by omega, _,
      (named _).mpr (Or.inr ⟨fork, above, below, recent, row⟩), row⟩
  · exact ⟨reached, positive, under, near, Digest.zero, (named _).mpr (Or.inl rfl), row⟩

/-! ## Eleven blocks -/

/-- A hash with a number in its first byte. -/
def numberedHash (number : ℕ) : Digest := Digest.ofPrefix [UInt8.ofNat number]

/-- The header on top of a number of numbered ones. -/
def numberedHeader (below : ℕ) : BlockHeader :=
  ⟨1, numberedHash below, Digest.zero, UInt64.ofNat below, 4, 0, numberedHash (below + 1),
    below + 1⟩

/-- A store with a number of numbered headers. -/
def numberedStorage : ℕ → Storage
  | 0 => Storage.empty
  | below + 1 =>
      (numberedStorage below).storeBlockWithHeader (numberedHeader below).hash
        (numberedHeader below) (.doc .null)

/-- The numbered headers. -/
def numberedChain (count : ℕ) : List BlockHeader := (List.range count).map numberedHeader

theorem numberedStorage_tip (count : ℕ) : (numberedStorage count).bestHeight = count ∧
    (numberedStorage count).bestBlockHash = numberedHash count := by
  induction count with
  | zero => exact ⟨rfl, by decide⟩
  | succ count ih =>
      have higher : (numberedHeader count).height > (numberedStorage count).bestHeight := by
        rw [ih.1]
        exact Nat.lt_succ_self count
      exact ⟨if_pos higher, if_pos higher⟩

theorem path_numbered (count : ℕ) (few : count ≤ 11) :
    Path (numberedStorage count).chainIndex (numberedChain count) := by
  induction count with
  | zero => exact Path.of_reset rfl rfl rfl
  | succ count ih =>
      have path := ih (by omega)
      obtain ⟨bestHeight, bestHash⟩ := numberedStorage_tip count
      have fresh : ∀ below < 11,
          (numberedHeader below).hash ∉ (numberedChain below).map BlockHeader.hash := by
        decide
      have length : (numberedChain count).length = count := by
        rw [numberedChain, List.length_map, List.length_range]
      have longer := @Path.extend _ _ path (numberedHeader count)
        (by rw [path.nextHeight, length]; rfl) (path.tip ▸ bestHash.symm) (fresh count (by omega))
        ((numberedStorage count).frames ++ [.doc .null]) (numberedStorage count).frames.length
      have higher : (numberedHeader count).height > (numberedStorage count).bestHeight := by
        rw [bestHeight]
        exact Nat.lt_succ_self count
      have grown : (numberedStorage (count + 1)).chainIndex =
          (numberedStorage count).chainIndex.extend ((numberedStorage count).frames ++ [.doc .null])
            (numberedStorage count).frames.length (numberedHeader count) := by
        simp only [numberedStorage, Storage.storeBlockWithHeader, Storage.chainIndex,
          ChainIndex.extend, if_pos higher]
      rw [grown, numberedChain, List.range_succ, List.map_append]
      exact longer

/-- The locator of an active chain reaches the forks among the last ten blocks and no
others. -/
theorem locator_reaches_iff (path : Path storage.chainIndex chain) {fork : ℕ} (above : 1 ≤ fork)
    (below : fork ≤ chain.length) : ReachesFork storage chain fork ↔ ForkNearTip chain fork :=
  ⟨forkNearTip_of_reaches path below, reaches_of_forkNearTip path above below⟩

theorem locator_reaches_second :
    ReachesFork (numberedStorage 11) (numberedChain 11) 2 ↔ ForkNearTip (numberedChain 11) 2 :=
  locator_reaches_iff (path_numbered 11 (Nat.le_refl 11)) (by decide) (by decide)

/-- On eleven blocks the locator misses a fork at the first. -/
theorem first_block_missed :
    ¬∀ (storage : Storage) (chain : List BlockHeader), Path storage.chainIndex chain →
      ∀ fork, 1 ≤ fork → fork ≤ chain.length → ReachesFork storage chain fork := by
  intro reaches
  have path := path_numbered 11 (Nat.le_refl 11)
  have missed := forkNearTip_of_reaches path (by decide)
    (reaches _ _ path 1 (by decide) (by decide))
  rcases missed with recent | ⟨reached, positive, under, _, row⟩
  · exact absurd recent (by decide)
  · obtain rfl : reached = 1 := Nat.le_antisymm under positive
    exact absurd row (by decide)

end PiSecure
