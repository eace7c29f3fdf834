import PiSecure.Theory.Purse

/-! # What a purse keeps

A purse that is read back is the one that was written when its heights and times fit
an `int` and its texts are UTF-8. A reset of a purse without other changes is not written.
-/

namespace PiSecure

namespace Purse

variable {Double : Type} {doubles : Doubles Double} {now : UInt64} {memory : Memory Double}

/-! ## Numbers that are kept -/

/-- A number that an `int` holds, or that one is widened to. -/
def Narrow (value : UInt64) : Prop := value.toNat < 2 ^ 31 ∨ 2 ^ 64 - 2 ^ 31 ≤ value.toNat

instance (value : UInt64) : Decidable (Narrow value) := inferInstanceAs (Decidable (_ ∨ _))

theorem toNat_widen (value : UInt64) : (widen value.toUInt32.toInt32).toNat =
    if 2 ^ 31 ≤ value.toNat % 2 ^ 32 then value.toNat % 2 ^ 32 + (2 ^ 64 - 2 ^ 32)
    else value.toNat % 2 ^ 32 := by
  change (value.toUInt32.toInt32.toInt64).toBitVec.toNat = _
  rw [Int32.toBitVec_toInt64]
  change ((value.toBitVec.setWidth 32).signExtend 64).toNat = _
  rw [BitVec.toNat_signExtend, BitVec.msb_eq_decide, BitVec.toNat_setWidth, BitVec.toNat_setWidth]
  change (value.toNat % 2 ^ 32 % 2 ^ 64) + _ = _
  rw [Nat.mod_eq_of_lt (by omega)]
  simp only [decide_eq_true_eq]
  change (value.toNat % 2 ^ 32) + (if 2 ^ 31 ≤ value.toNat % 2 ^ 32 then _ else _) = _
  split <;> rfl

/-- A number is read back exactly when it is narrow. -/
theorem widen_eq_iff (value : UInt64) : widen value.toUInt32.toInt32 = value ↔ Narrow value := by
  have bound := value.toNat_lt
  rw [← UInt64.toNat_inj, toNat_widen, Narrow]
  split <;> omega

/-- A reward whose height and time are kept. -/
def RewardEntry.Fits (entry : RewardEntry Double) : Prop :=
  Narrow entry.blockHeight ∧ Narrow entry.timestamp

/-- A state whose numbers are kept, and whose texts can be written. -/
structure PurseState.Fits (state : PurseState Double) : Prop where
  blocks : Narrow state.blocksValidated
  height : Narrow state.lastBlockHeight
  rewards : ∀ entry ∈ state.recentRewards, entry.Fits
  texts : ∀ text ∈ state.texts, isUtf8 text = true

/-! ## Reading what was written -/

theorem readReward_rewardToDoc {entry : RewardEntry Double} (fits : entry.Fits) :
    readReward doubles (rewardToDoc entry) = some entry := by
  have height := (widen_eq_iff _).mpr fits.1
  have time := (widen_eq_iff _).mpr fits.2
  have count : entry.validatorCount.toUInt64.toUInt32.toInt32.toUInt32 = entry.validatorCount := by
    rw [UInt32.toUInt32_toUInt64, UInt32.toUInt32_toInt32]
  change some (RewardEntry.mk (widen entry.blockHeight.toUInt32.toInt32) entry.amount
    entry.blockReward entry.percentage (widen entry.timestamp.toUInt32.toInt32)
    entry.validatorCount.toUInt64.toUInt32.toInt32.toUInt32 entry.blockHash) = _
  rw [height, time, count]

theorem mapM_readReward_written {entries : List (RewardEntry Double)}
    (fits : ∀ entry ∈ entries, entry.Fits) :
    (entries.map rewardToDoc).mapM (readReward doubles) = some entries := by
  induction entries with
  | nil => rfl
  | cons entry rest ih =>
      obtain ⟨first, others⟩ := List.forall_mem_cons.mp fits
      rw [List.map_cons, List.mapM_cons, readReward_rewardToDoc first, ih others]
      rfl

/-- A state that fits is read as it was written. -/
theorem parseState_stateToDoc (fits : memory.state.Fits) (held : Memory Double) :
    parseState doubles now (some (stateToDoc memory)) held = (memory, true) := by
  have rewards : readRewards doubles (stateToDoc memory) = some memory.state.recentRewards :=
    mapM_readReward_written fits.rewards
  have blocks := (widen_eq_iff _).mpr fits.blocks
  have height := (widen_eq_iff _).mpr fits.height
  have read : readIn doubles now (stateToDoc memory) = some { memory.state with
      blocksValidated := widen memory.state.blocksValidated.toUInt32.toInt32
      lastBlockHeight := widen memory.state.lastBlockHeight.toUInt32.toInt32 } := by
    unfold readIn
    rw [rewards]
    rfl
  rw [blocks, height] at read
  obtain ⟨share, percentage, parsed⟩ := parseState_read read held
  cases percentage
  exact parsed

/-! ## What a run keeps -/

/-- A purse whose numbers are kept, and whose file, if there is one, holds it unless it is dirty. -/
structure Kept (world : Keeper Double × Files Double) : Prop where
  fits : world.1.memory.state.Fits
  written : world.1.dirty = false →
    world.2.purse = none ∨ world.2.purse = some (some (stateToDoc world.1.memory))

theorem kept_of_dirty {purse : Keeper Double} {files : Files Double}
    (fits : purse.memory.state.Fits)
    (dirty : purse.dirty = true) : Kept (purse, files) :=
  ⟨fits, fun clean => absurd (clean.symm.trans dirty) Bool.false_ne_true⟩

/-- A state that fits is written. -/
theorem serializeState_fits (fits : memory.state.Fits) :
    serializeState memory = some (stateToDoc memory) :=
  if_pos (List.all_eq_true.mpr fits.texts)

theorem kept_saveToDisk {purse : Keeper Double} {files : Files Double}
    (kept : Kept (purse, files)) :
    Kept (saveToDisk purse files) := by
  rw [saveToDisk]
  split
  · exact kept
  · rw [serializeState_fits kept.fits]
    exact ⟨kept.fits, fun _ => Or.inr rfl⟩

/-- A reward with other numbers is paid. -/
def Pays (doubles : Doubles Double) (purse : Keeper Double) (blockHeight : UInt64)
    (blockReward : Double) (validatorCount : UInt32) : Prop :=
  ¬blockHeight ≤ purse.memory.state.lastBlockHeight ∧
    ¬doubles.le (rewardAmount doubles purse blockReward validatorCount) doubles.zero = true

/-- A call whose change is kept: a reward that is paid has narrow numbers and a hash in UTF-8, an
address that is linked is in UTF-8, and a purse that is reset is dirty. -/
def Lasting (doubles : Doubles Double) (world : Keeper Double × Files Double) : Call Double → Prop
  | .addReward now blockHeight blockHash blockReward validatorCount =>
      Pays doubles world.1 blockHeight blockReward validatorCount →
        Narrow blockHeight ∧ Narrow now ∧ Narrow (world.1.memory.state.blocksValidated + 1) ∧
          isUtf8 blockHash = true
  | .linkWallet _ walletAddress => walletAddress ≠ [] → isUtf8 walletAddress = true
  | .reset _ => world.1.dirty = true
  | _ => True

theorem forall_texts {test : Bytes → Prop} {state : PurseState Double} :
    (∀ text ∈ state.texts, test text) ↔ test state.version ∧ test state.linkedWalletAddress ∧
      ∀ entry ∈ state.recentRewards, test entry.blockHash := by
  rw [PurseState.texts, List.forall_mem_cons, List.forall_mem_cons, List.forall_mem_map]

theorem kept_addReward {world : Keeper Double × Files Double} {blockHeight : UInt64}
    {blockHash : Bytes}
    {blockReward : Double} {validatorCount : UInt32} (kept : Kept world)
    (lasting : Lasting doubles world
      (.addReward now blockHeight blockHash blockReward validatorCount)) :
    Kept ((addReward doubles now blockHeight blockHash blockReward validatorCount world.1).1,
      world.2) := by
  rw [addReward]
  dsimp only
  split
  · exact kept
  next later =>
    split
    · exact kept
    next paid =>
      obtain ⟨height, time, blocks, hash⟩ := lasting ⟨later, paid⟩
      refine kept_of_dirty ⟨blocks, height, fun entry listed => ?_, ?_⟩ rfl
      · rcases List.mem_cons.mp (List.mem_of_mem_take listed) with rfl | earlier
        · exact ⟨height, time⟩
        · exact kept.fits.rewards entry earlier
      · obtain ⟨version, wallet, hashes⟩ := forall_texts.mp kept.fits.texts
        refine forall_texts.mpr ⟨version, wallet, fun entry listed => ?_⟩
        rcases List.mem_cons.mp (List.mem_of_mem_take listed) with rfl | earlier
        · exact hash
        · exact hashes entry earlier

theorem narrow_zero : Narrow 0 := by decide

/-- A lasting call keeps a purse. -/
theorem kept_perform {world : Keeper Double × Files Double} {call : Call Double} (kept : Kept world)
    (lasting : Lasting doubles world call) : Kept (perform doubles world call) := by
  cases call with
  | addReward now blockHeight blockHash blockReward validatorCount =>
      exact kept_addReward kept lasting
  | withdraw now amount =>
      rw [perform, withdraw]
      generalize (if doubles.le amount doubles.zero = true then _ else amount) = taken
      dsimp only
      split
      · exact kept
      · change Kept (saveToDisk ⟨⟨_, _⟩, true⟩ world.2)
        exact kept_saveToDisk (kept_of_dirty { kept.fits with } rfl)
  | linkWallet now walletAddress =>
      rw [perform, linkWallet]
      split
      · exact kept
      next given =>
        obtain ⟨version, _, hashes⟩ := forall_texts.mp kept.fits.texts
        have linked : isUtf8 walletAddress = true :=
          lasting fun empty => given (List.isEmpty_iff.mpr empty)
        refine kept_saveToDisk (kept_of_dirty ⟨kept.fits.blocks, kept.fits.height,
          kept.fits.rewards, ?_⟩ rfl)
        exact forall_texts.mpr ⟨version, linked, hashes⟩
  | setAutoSweep now enabled threshold => exact kept_of_dirty { kept.fits with } rfl
  | reset now =>
      obtain ⟨version, wallet, _⟩ := forall_texts.mp kept.fits.texts
      refine kept_saveToDisk (kept_of_dirty ⟨narrow_zero, narrow_zero, ?_, ?_⟩ lasting)
      · exact fun _ none => nomatch none
      · exact forall_texts.mpr ⟨version, wallet, List.forall_mem_nil _⟩
  | save => exact kept_saveToDisk kept

theorem kept_run {start final : Keeper Double × Files Double} {calls : List (Call Double)}
    {log : List Unit} (kept : Kept start)
    (run : (machine doubles).Runs (Lasting doubles) start calls log final) : Kept final := by
  refine @Machine.Runs.invariant _ _ _ (machine doubles) (Lasting doubles) start
    (fun _ world => Kept world) kept ?_ calls log final run
  intro log world call next held lasting stepped
  cases stepped
  exact kept_perform held lasting

/-- A new purse without a file is kept. -/
theorem kept_construct {leftover : PurseState Double} {percentage : Double}
    {bak : Option (Option (Doc Double))} {start : Keeper Double × Files Double}
    (made : construct doubles now leftover percentage ⟨none, bak⟩ = some start) : Kept start := by
  have version : isUtf8 firstVersion = true := by decide +kernel
  have wallet : isUtf8 [] = true := by decide +kernel
  rw [construct] at made
  split at made
  · cases made
  · cases made
    refine ⟨⟨narrow_zero, narrow_zero, fun _ none => ?_, ?_⟩, fun _ => Or.inl rfl⟩
    · cases none
    · exact forall_texts.mpr ⟨version, wallet, List.forall_mem_nil _⟩

/-- What is in the file when a kept purse is destroyed. -/
theorem destroy_kept {world : Keeper Double × Files Double} (kept : Kept world)
    (changed : world.1.dirty = true ∨ world.2.purse.isSome = true) :
    (destroy world.1 world.2).purse = some (some (stateToDoc world.1.memory)) := by
  rw [destroy]
  by_cases dirty : world.1.dirty = true
  · rw [if_pos dirty, saveToDisk, if_neg (not_not.mpr dirty), serializeState_fits kept.fits]
  · rw [if_neg dirty]
    have present := changed.resolve_left dirty
    refine (kept.written (Bool.eq_false_iff.mpr dirty)).resolve_left fun none => ?_
    rw [none] at present
    exact Bool.false_ne_true present

/-- A purse after a link and a change of the sweep. -/
def linkedPurse (start : Keeper ℚ × Files ℚ) : Keeper ℚ × Files ℚ :=
  perform rationals (perform rationals start (.linkWallet 6 (Text.bytes "w".toList)))
    (.setAutoSweep 7 true 1)

/-- A reward for a block, a save and a reset. -/
def resetCalls : List (Call ℚ) := [.addReward 5 1 [] 50 1, .save, .reset 6]

/-- The height of a purse that is reset after a save, and of the purse that is read back. -/
def resetHeights : Option (UInt64 × UInt64) := do
  let start ← construct rationals 5 zeroState (1 / 100) ⟨none, none⟩
  let ended ← (machine rationals).play start resetCalls
  let again ← construct rationals 7 zeroState (1 / 100) (destroy ended.2.1 ended.2.2)
  return (ended.2.1.memory.state.lastBlockHeight, again.1.memory.state.lastBlockHeight)

/-- A call that links an address that is not UTF-8. -/
def garbledCalls : List (Call ℚ) := [.addReward 5 1 [] 50 1, .linkWallet 6 [0xff], .save]

/-- Whether a purse with such an address has a file when it is destroyed. -/
def garbledFile : Option Bool := do
  let start ← construct rationals 5 zeroState (1 / 100) ⟨none, none⟩
  let ended ← (machine rationals).play start garbledCalls
  return (destroy ended.2.1 ended.2.2).purse.isSome

/-- Such a purse is never written. -/
example : garbledFile = some false := by decide +kernel

end Purse

end PiSecure
