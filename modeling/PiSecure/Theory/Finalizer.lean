import PiSecure.Model.PiHash

/-! # The finalizer of PiHash2

The mixing pass is invertible, byte after byte in the order it writes them. The
diffusion is not: it gives the first and the third byte of every group the same
value. So every round loses something, and two states that one round brings
together stay together.
-/

namespace PiSecure

/-! ## The mixing pass -/

/-- What `PiHash::CpuOptimizedFinalize` writes for a sum of three bytes. -/
def stirred (total : UInt8) : UInt8 :=
  let mixed := total * 7 + 3
  mixed ^^^ (mixed >>> 4)

/-- The sum of three bytes from what is written for it; 183 is the inverse of 7. -/
def unstirred (written : UInt8) : UInt8 := ((written ^^^ (written >>> 4)) - 3) * 183

theorem stirred_injective : Function.Injective stirred := by
  have values : ∀ total : Fin 256, unstirred (stirred (UInt8.ofFin total)) = UInt8.ofFin total := by
    decide +kernel
  exact Function.LeftInverse.injective fun total => values total.toFin

/-- Lists that agree after one write agreed elsewhere, and the same was written. -/
theorem set_eq_set {first second : Bytes} {index : ℕ} {left right : UInt8}
    (sameLength : first.length = second.length) (inside : index < first.length)
    (same : first.set index left = second.set index right) :
    left = right ∧ ∀ other, other ≠ index → first.getD other 0 = second.getD other 0 := by
  constructor
  · have written := congrArg (fun state => state[index]?) same
    simp only [List.getElem?_set_self inside,
      List.getElem?_set_self (sameLength ▸ inside)] at written
    exact Option.some.inj written
  · intro other apart
    have kept := congrArg (fun state => state[other]?) same
    simp only [List.getElem?_set_ne apart.symm] at kept
    rw [List.getD_eq_getElem?_getD, List.getD_eq_getElem?_getD, kept]

/-- A neighbour around the end is another byte. -/
theorem wrap_ne {index step size : ℕ} (inside : index < size) (positive : 0 < step)
    (short : step < size) : (index + step) % size ≠ index := by
  rcases Nat.lt_or_ge (index + step) size with low | high
  · rw [Nat.mod_eq_of_lt low]
    omega
  · rw [Nat.mod_eq_sub_mod high, Nat.mod_eq_of_lt (by omega)]
    omega

@[simp] theorem length_mixByte (state : Bytes) (index : ℕ) :
    (mixByte state index).length = state.length :=
  List.length_set

/-- A write can be undone: its two neighbours are still there. -/
theorem mixByte_injective {first second : Bytes} {index : ℕ} (size : 3 ≤ first.length)
    (sameLength : first.length = second.length) (inside : index < first.length)
    (same : mixByte first index = mixByte second index) : first = second := by
  obtain ⟨written, kept⟩ := set_eq_set sameLength inside same
  have sums := stirred_injective written
  rw [← sameLength, kept _ (wrap_ne inside Nat.one_pos (by omega)),
    kept _ (wrap_ne inside Nat.two_pos (by omega)), UInt8.add_left_inj, UInt8.add_left_inj] at sums
  refine List.ext_getElem sameLength fun other low high => ?_
  have equal : first.getD other 0 = second.getD other 0 := by
    by_cases here : other = index
    · rw [here, sums]
    · exact kept other here
  rw [List.getD_eq_getElem?_getD, List.getD_eq_getElem?_getD, List.getElem?_eq_getElem low,
    List.getElem?_eq_getElem high] at equal
  exact equal

/-- The mixing pass loses nothing. -/
theorem mixPass_injective {first second : Bytes} (size : 3 ≤ first.length)
    (sameLength : first.length = second.length)
    (same : (List.range first.length).foldl mixByte first =
      (List.range second.length).foldl mixByte second) : first = second := by
  have pass : ∀ (indices : List ℕ) (left right : Bytes), 3 ≤ left.length →
      left.length = right.length → (∀ index ∈ indices, index < left.length) →
      indices.foldl mixByte left = indices.foldl mixByte right → left = right := by
    intro indices
    induction indices with
    | nil => exact fun _ _ _ _ _ equal => equal
    | cons index indices ih =>
        intro left right long lengths inside equal
        rw [List.forall_mem_cons] at inside
        refine mixByte_injective long lengths inside.1 (ih _ _ ?_ ?_ ?_ equal)
        · rwa [length_mixByte]
        · rwa [length_mixByte, length_mixByte]
        · rw [length_mixByte]
          exact inside.2
  rw [← sameLength] at same
  exact pass _ first second size sameLength (fun _ => List.mem_range.mp) same

/-! ## The diffusion -/

@[simp] theorem length_diffuseGroup (state : Bytes) (group : ℕ) :
    (diffuseGroup state group).length = state.length := by
  simp only [diffuseGroup, List.length_set]

/-- The first and the third byte of a group become their exclusive or. -/
theorem diffuseGroup_paired {state : Bytes} {group : ℕ} (inside : 4 * group + 3 < state.length) :
    (diffuseGroup state group)[4 * group]? = (diffuseGroup state group)[4 * group + 2]? := by
  have first : 4 * group < state.length := by omega
  have third : 4 * group + 2 < state.length := by omega
  simp [diffuseGroup, first, third]

/-- A group does not touch the others. -/
theorem diffuseGroup_other {state : Bytes} {group index : ℕ}
    (apart : index < 4 * group ∨ 4 * group + 3 < index) :
    (diffuseGroup state group)[index]? = state[index]? := by
  unfold diffuseGroup
  simp only
  rw [List.getElem?_set_ne (by omega), List.getElem?_set_ne (by omega),
    List.getElem?_set_ne (by omega), List.getElem?_set_ne (by omega)]

/-- After the diffusion the first and the third byte of every group are equal. -/
theorem armDiffusion_paired (state : Bytes) :
    (armDiffusion state).length = state.length ∧ ∀ group < state.length / 4,
      (armDiffusion state)[4 * group]? = (armDiffusion state)[4 * group + 2]? := by
  have pass : ∀ count ≤ state.length / 4,
      ((List.range count).foldl diffuseGroup state).length = state.length ∧
      ∀ done < count, ((List.range count).foldl diffuseGroup state)[4 * done]? =
        ((List.range count).foldl diffuseGroup state)[4 * done + 2]? := by
    intro count
    induction count with
    | zero => exact fun _ => ⟨rfl, fun done none => absurd none (Nat.not_lt_zero done)⟩
    | succ count ih =>
        intro within
        obtain ⟨length, paired⟩ := ih (by omega)
        rw [List.range_succ, List.foldl_append, List.foldl_cons, List.foldl_nil]
        refine ⟨(length_diffuseGroup _ _).trans length, fun done below => ?_⟩
        rcases Nat.lt_succ_iff_lt_or_eq.mp below with earlier | rfl
        · rw [diffuseGroup_other (by omega), diffuseGroup_other (by omega), paired done earlier]
        · exact diffuseGroup_paired (by omega)
  exact pass _ (Nat.le_refl _)

/-! ## The rounds -/

theorem length_mixPass (indices : List ℕ) (state : Bytes) :
    (indices.foldl mixByte state).length = state.length := by
  induction indices generalizing state with
  | nil => rfl
  | cons index indices ih => rw [List.foldl_cons, ih, length_mixByte]

/-- Every PiHash2 digest repeats the first byte of each group of four as the third: at most 24
of its 32 bytes are its own. -/
theorem pihashV2_paired (host : Host) (version : Nat) (prev merkle : Digest) (timestamp : UInt64)
    (difficulty : UInt32) (nonce : UInt64) (model : Text) (serialCommitment : Digest) {group : ℕ}
    (inside : group < 8) :
    (pihashV2 host version prev merkle timestamp difficulty nonce model
      serialCommitment).bytes[4 * group]? =
    (pihashV2 host version prev merkle timestamp difficulty nonce model
      serialCommitment).bytes[4 * group + 2]? := by
  have state (hash : Digest) : (finalizeRound hash.bytes).length = 32 ∧ ∀ group < 8,
      (finalizeRound hash.bytes)[4 * group]? = (finalizeRound hash.bytes)[4 * group + 2]? := by
    have mixed := length_mixPass (List.range hash.bytes.length) hash.bytes
    rw [hash.size_eq] at mixed
    have diffused := armDiffusion_paired ((List.range 32).foldl mixByte hash.bytes)
    rw [mixed] at diffused
    rw [finalizeRound, hash.size_eq]
    exact diffused
  obtain ⟨length, paired⟩ := state (memoryHardMix host (headerPreimage "PiHash2".toList version prev
    merkle timestamp difficulty nonce model serialCommitment) nonce.toUInt32)
  have whole : (pihashV2 host version prev merkle timestamp difficulty nonce model
      serialCommitment).bytes = finalizeRound (memoryHardMix host (headerPreimage "PiHash2".toList
        version prev merkle timestamp difficulty nonce model serialCommitment)
        nonce.toUInt32).bytes :=
    List.take_left' length
  rw [whole]
  exact paired group inside

/-- A state that the mixing pass turns into zeros. -/
def quietHash : Digest :=
  ⟨[0, 219, 0, 0, 219, 0, 0, 219, 0, 0, 219, 0, 0, 219, 0, 0,
    219, 0, 0, 219, 0, 0, 219, 0, 0, 219, 0, 0, 219, 0, 0, 219], rfl⟩

/-- A state that the mixing pass turns into zeros, but for the first and the third
byte, which are one. -/
def pairedHash : Digest :=
  ⟨[183, 35, 184, 0, 218, 1, 0, 218, 1, 0, 218, 1, 0, 218, 1, 0,
    218, 1, 0, 218, 1, 0, 218, 1, 0, 218, 1, 0, 218, 1, 0, 218], rfl⟩

/-- One round brings the two states together: the diffusion sees two equal bytes and
gives their exclusive or. -/
theorem finalizeRound_collides :
    finalizeRound quietHash.bytes = finalizeRound pairedHash.bytes := by
  decide +kernel

theorem quiet_ne_paired : quietHash ≠ pairedHash := by
  decide

/-- States that one round brings together stay together. -/
theorem finalize_collides {rounds : ℕ} (some : 0 < rounds) :
    cpuOptimizedFinalize rounds quietHash.bytes = cpuOptimizedFinalize rounds pairedHash.bytes := by
  obtain ⟨later, rfl⟩ := Nat.exists_eq_succ_of_ne_zero (Nat.ne_of_gt some)
  exact congrArg (Nat.iterate finalizeRound later) finalizeRound_collides

/-- The finalizer keeps different memory hashes apart exactly when it runs no round. -/
theorem finalizer_lossless_iff (rounds : ℤ) :
    (∀ first second : Digest, first ≠ second →
      cpuOptimizedFinalize rounds.toNat first.bytes ≠
        cpuOptimizedFinalize rounds.toNat second.bytes) ↔ rounds ≤ 0 := by
  constructor
  · intro lossless
    by_contra some
    exact lossless quietHash pairedHash quiet_ne_paired (finalize_collides (by omega))
  · intro none first second different same
    rw [Int.toNat_of_nonpos none] at same
    exact different (Digest.ext_bytes same)

/-- In the one round of validation two memory hashes share a state. -/
theorem one_round_not_lossless :
    ¬∀ (rounds : ℤ) (first second : Digest), first ≠ second →
      cpuOptimizedFinalize rounds.toNat first.bytes ≠
        cpuOptimizedFinalize rounds.toNat second.bytes :=
  fun lossless => lossless 1 quietHash pairedHash quiet_ne_paired finalizeRound_collides

end PiSecure
