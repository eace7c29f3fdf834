import Mathlib.Algebra.Order.Ring.Rat
import Mathlib.Tactic.NormNum
import PiSecure.Model.Purse

/-! # The backup of a purse is not used

`deserialize_state` catches what its body throws, so that a file that cannot be read
counts as one that is not there. A purse is then made anew over the fields that were
read before the bad one, and the backup is passed over. So it is when the reader converts
or skips a field of a wrong type.
-/

namespace PiSecure

namespace Purse

section Backup

variable {Double : Type} {doubles : Doubles Double} {now : UInt64} {doc : Doc Double}

/-! ## What a text holds

A text holds a state when it is a JSON object and every field that is there has its type:
the counters, heights and times are unsigned numbers, and the rewards are a list of
objects. The reader takes other documents, too. -/

/-- An unsigned number as it stands in a document. -/
def Doc.exact : Doc Double → Option UInt64
  | .unsigned value => some value
  | _ => none

/-- The reward that an item holds. -/
def heldReward (doubles : Doubles Double) (reward : Doc Double) : Option (RewardEntry Double) := do
  let blockHeight ← reward.value Doc.exact "block_height" 0
  let amount ← reward.value (Doc.asDouble doubles) "amount" doubles.zero
  let blockReward ← reward.value (Doc.asDouble doubles) "block_reward" doubles.zero
  let percentage ← reward.value (Doc.asDouble doubles) "percentage" doubles.zero
  let timestamp ← reward.value Doc.exact "timestamp" 0
  let validatorCount ← reward.value Doc.exact "validator_count" 0
  let blockHash ← reward.value Doc.asText "block_hash" []
  if validatorCount.toNat < 2 ^ 32 then
    return ⟨blockHeight, amount, blockReward, percentage, timestamp, validatorCount.toUInt32,
      blockHash⟩
  else none

/-- The rewards that a document holds. -/
def heldRewards (doubles : Doubles Double) (doc : Doc Double) :
    Option (List (RewardEntry Double)) :=
  match doc.find? "recent_rewards" with
  | none => some []
  | some (.array items) => items.mapM (heldReward doubles)
  | some _ => none

/-- The state that a document holds. -/
def heldIn (doubles : Doubles Double) (now : UInt64) (doc : Doc Double) :
    Option (PurseState Double) := do
  let version ← doc.value Doc.asText "version" firstVersion
  let totalBalance ← doc.value (Doc.asDouble doubles) "total_balance" doubles.zero
  let lifetimeEarned ← doc.value (Doc.asDouble doubles) "lifetime_earned" doubles.zero
  let lifetimeWithdrawn ← doc.value (Doc.asDouble doubles) "lifetime_withdrawn" doubles.zero
  let blocksValidated ← doc.value Doc.exact "blocks_validated" 0
  let lastBlockHeight ← doc.value Doc.exact "last_block_height" 0
  let createdAt ← doc.value Doc.exact "created_at" now
  let lastUpdated ← doc.value Doc.exact "last_updated" now
  let _ ← doc.value (Doc.asDouble doubles) "rewards_percentage" doubles.zero
  let linkedWalletAddress ← doc.value Doc.asText "linked_wallet_address" []
  let autoSweepEnabled ← doc.value Doc.asBool "auto_sweep_enabled" false
  let autoSweepThreshold ← doc.value (Doc.asDouble doubles) "auto_sweep_threshold" doubles.zero
  let recentRewards ← heldRewards doubles doc
  return ⟨totalBalance, lifetimeEarned, lifetimeWithdrawn, blocksValidated, lastBlockHeight,
    createdAt, lastUpdated, linkedWalletAddress, autoSweepEnabled, autoSweepThreshold,
    recentRewards, version⟩

/-- The state that a text holds. -/
def heldState (doubles : Doubles Double) (now : UInt64) (text : Option (Doc Double)) :
    Option (PurseState Double) := text.bind (heldIn doubles now)

/-! ## What the reader makes of a text -/

/-- The rewards as they are read; what is no array has none. -/
def readRewards (doubles : Doubles Double) (doc : Doc Double) :
    Option (List (RewardEntry Double)) :=
  match doc.find? "recent_rewards" with
  | some (.array items) => items.mapM (readReward doubles)
  | _ => some []

/-- Whether the percentage of a document is read. -/
def readPercentage (doubles : Doubles Double) (doc : Doc Double) : Option (Option Double) :=
  match doc.find? "rewards_percentage" with
  | none => some none
  | some found => (found.asDouble doubles).map some

/-- The state that is read from a document, field by field as an `int` where the reader does
so; none when a field cannot be converted. -/
def readIn (doubles : Doubles Double) (now : UInt64) (doc : Doc Double) :
    Option (PurseState Double) := do
  let version ← readVersion doc
  let totalBalance ← doc.value (Doc.asDouble doubles) "total_balance" doubles.zero
  let lifetimeEarned ← doc.value (Doc.asDouble doubles) "lifetime_earned" doubles.zero
  let lifetimeWithdrawn ← doc.value (Doc.asDouble doubles) "lifetime_withdrawn" doubles.zero
  let blocksValidated ← doc.value (Doc.asInt doubles) "blocks_validated" 0
  let lastBlockHeight ← doc.value (Doc.asInt doubles) "last_block_height" 0
  let createdAt ← doc.value (Doc.asUnsigned doubles) "created_at" now
  let lastUpdated ← doc.value (Doc.asUnsigned doubles) "last_updated" now
  let _ ← readPercentage doubles doc
  let linkedWalletAddress ← doc.value Doc.asText "linked_wallet_address" []
  let autoSweepEnabled ← doc.value Doc.asBool "auto_sweep_enabled" false
  let autoSweepThreshold ← doc.value (Doc.asDouble doubles) "auto_sweep_threshold" doubles.zero
  let recentRewards ← readRewards doubles doc
  return ⟨totalBalance, lifetimeEarned, lifetimeWithdrawn, widen blocksValidated,
    widen lastBlockHeight, createdAt, lastUpdated, linkedWalletAddress, autoSweepEnabled,
    autoSweepThreshold, recentRewards, version⟩

/-- The state that is read from a text. -/
def readState (doubles : Doubles Double) (now : UInt64) (text : Option (Doc Double)) :
    Option (PurseState Double) := text.bind (readIn doubles now)

/-! ## Steps that write and steps that throw -/

/-- A step reads a document and changes memory in some way. -/
def Writes (step : Step Double) (doc : Doc Double) (write : Memory Double → Memory Double) : Prop :=
  ∀ memory, step doc memory = (write memory, true)

/-- A step throws on a document, whatever memory holds. -/
def Throws (step : Step Double) (doc : Doc Double) : Prop :=
  ∀ memory, (step doc memory).2 = false

theorem writes_assign {Value : Type} {read : Doc Double → Option Value}
    {set : PurseState Double → Value → PurseState Double} {value : Value}
    (found : read doc = some value) :
    Writes (assign read set) doc fun memory => { memory with state := set memory.state value } := by
  intro memory
  rw [assign, found]

theorem throws_assign {Value : Type} {read : Doc Double → Option Value}
    {set : PurseState Double → Value → PurseState Double} (unread : (read doc).isSome = false) :
    Throws (assign read set) doc := by
  intro memory
  rw [assign]
  cases found : read doc with
  | none => rfl
  | some value =>
      rw [found] at unread
      cases unread

theorem writes_percentage {share : Option Double} (read : readPercentage doubles doc = some share) :
    Writes (stepPercentage doubles) doc fun memory =>
      { memory with rewardsPercentage := share.getD memory.rewardsPercentage } := by
  intro memory
  unfold readPercentage at read
  unfold stepPercentage
  cases found : doc.find? "rewards_percentage" with
  | none =>
      rw [found] at read
      cases read
      rfl
  | some value =>
      rw [found] at read
      obtain ⟨number, isNumber, rfl⟩ := Option.map_eq_some_iff.mp read
      dsimp only
      rw [isNumber]
      rfl

theorem throws_percentage (unread : (readPercentage doubles doc).isSome = false) :
    Throws (stepPercentage doubles) doc := by
  intro memory
  unfold readPercentage at unread
  unfold stepPercentage
  cases found : doc.find? "rewards_percentage" with
  | none =>
      rw [found] at unread
      cases unread
  | some value =>
      rw [found] at unread
      dsimp only at unread ⊢
      cases number : value.asDouble doubles with
      | none => rfl
      | some share =>
          rw [number] at unread
          cases unread

theorem loadRewards_read {items : List (Doc Double)} {entries : List (RewardEntry Double)}
    (read : items.mapM (readReward doubles) = some entries) (memory : Memory Double) :
    loadRewards doubles items memory = ({ memory with
      state := { memory.state with recentRewards := memory.state.recentRewards ++ entries } },
      true) := by
  induction items generalizing entries memory with
  | nil =>
      obtain rfl : [] = entries := Option.some.inj read
      simp only [loadRewards, List.append_nil]
  | cons item rest ih =>
      rw [List.mapM_cons] at read
      obtain ⟨entry, first, more⟩ := Option.bind_eq_some_iff.mp read
      obtain ⟨others, later, whole⟩ := Option.bind_eq_some_iff.mp more
      cases whole
      rw [loadRewards, first]
      dsimp only
      rw [ih later]
      simp only [List.append_assoc, List.singleton_append]

theorem loadRewards_unread {items : List (Doc Double)}
    (unreadable : items.mapM (readReward doubles) = none) (memory : Memory Double) :
    (loadRewards doubles items memory).2 = false := by
  induction items generalizing memory with
  | nil => cases unreadable
  | cons item rest ih =>
      rw [loadRewards]
      cases first : readReward doubles item with
      | none => rfl
      | some entry =>
          refine ih ?_ _
          rw [List.mapM_cons, first] at unreadable
          cases later : rest.mapM (readReward doubles) with
          | none => rfl
          | some others =>
              rw [later] at unreadable
              cases unreadable

/-- The rewards are those of an array, or there are none. -/
theorem rewards_cases (doubles : Doubles Double) (doc : Doc Double) :
    (∃ items, readRewards doubles doc = items.mapM (readReward doubles) ∧
        ∀ memory, stepRewards doubles doc memory = loadRewards doubles items
          { memory with state := { memory.state with recentRewards := [] } }) ∨
      readRewards doubles doc = some [] ∧
        ∀ memory, stepRewards doubles doc memory =
          ({ memory with state := { memory.state with recentRewards := [] } }, true) := by
  unfold readRewards stepRewards
  cases doc.find? "recent_rewards" with
  | none => exact .inr ⟨rfl, fun _ => rfl⟩
  | some value =>
      cases value with
      | array items => exact .inl ⟨items, rfl, fun _ => rfl⟩
      | _ => exact .inr ⟨rfl, fun _ => rfl⟩

theorem writes_rewards {entries : List (RewardEntry Double)}
    (read : readRewards doubles doc = some entries) :
    Writes (stepRewards doubles) doc fun memory =>
      { memory with state := { memory.state with recentRewards := entries } } := by
  intro memory
  rcases rewards_cases doubles doc with ⟨items, reads, step⟩ | ⟨reads, step⟩
  · rw [step]
    exact loadRewards_read (reads.symm.trans read) _
  · cases reads.symm.trans read
    exact step memory

theorem throws_rewards (unread : (readRewards doubles doc).isSome = false) :
    Throws (stepRewards doubles) doc := by
  intro memory
  rcases rewards_cases doubles doc with ⟨items, reads, step⟩ | ⟨reads, _⟩
  · rw [reads] at unread
    rw [step]
    exact loadRewards_unread (Option.not_isSome_iff_eq_none.mp (Bool.eq_false_iff.mp unread)) _
  · rw [reads] at unread
    cases unread

theorem writes_runSteps {steps : List (Step Double)}
    {writes : List (Memory Double → Memory Double)}
    (all : List.Forall₂ (fun step write => Writes step doc write) steps writes) :
    Writes (runSteps steps) doc
      fun memory => writes.foldl (fun held write => write held) memory := by
  intro memory
  induction all generalizing memory with
  | nil => rfl
  | @cons step write steps writes first _ ih =>
      rw [runSteps, first memory]
      exact ih (write memory)

/-- Steps of which one throws do not get to the end. -/
theorem throws_runSteps {steps : List (Step Double)} {read : List Bool}
    (each : List.Forall₂ (fun step ok => ok = false → Throws step doc) steps read)
    (unread : false ∈ read) : Throws (runSteps steps) doc := by
  intro memory
  induction each generalizing memory with
  | nil => cases unread
  | @cons step ok steps read first _ ih =>
      rw [runSteps]
      split
      · rfl
      next after went =>
        rcases List.mem_cons.mp unread with bad | later
        · have threw := first bad.symm memory
          rw [went] at threw
          cases threw
        · exact ih later after

/-- A document that is read gives the same state over any memory. -/
theorem parseState_read {state : PurseState Double} (read : readIn doubles now doc = some state)
    (memory : Memory Double) :
    ∃ share, readPercentage doubles doc = some share ∧
      parseState doubles now (some doc) memory =
        (⟨state, share.getD memory.rewardsPercentage⟩, true) := by
  unfold readIn at read
  simp only [Option.bind_eq_bind, Option.bind_eq_some_iff, Option.pure_def, Option.some.injEq]
    at read
  obtain ⟨_, version, _, balance, _, earned, _, withdrawn, _, blocks, _, height, _, created, _,
    updated, share, percentage, _, wallet, _, enabled, _, threshold, _, rewards, rfl⟩ := read
  have each : List.Forall₂ (fun step write => Writes step doc write)
      (assign readVersion (fun state value => { state with version := value }) ::
        laterSteps doubles now) _ :=
    .cons (writes_assign version) <| .cons (writes_assign balance) <|
    .cons (writes_assign earned) <| .cons (writes_assign withdrawn) <|
    .cons (writes_assign blocks) <| .cons (writes_assign height) <|
    .cons (writes_assign created) <| .cons (writes_assign updated) <|
    .cons (writes_percentage percentage) <| .cons (writes_assign wallet) <|
    .cons (writes_assign enabled) <| .cons (writes_assign threshold) <|
    .cons (writes_rewards rewards) .nil
  exact ⟨share, percentage, writes_runSteps each memory⟩

/-- A document that is not read makes the parse throw, over any memory. -/
theorem parseState_unread (unread : readIn doubles now doc = none) (memory : Memory Double) :
    (parseState doubles now (some doc) memory).2 = false := by
  have each : List.Forall₂ (fun step ok => ok = false → Throws step doc)
      (assign readVersion (fun state value => { state with version := value }) ::
        laterSteps doubles now) _ :=
    .cons throws_assign <| .cons throws_assign <| .cons throws_assign <| .cons throws_assign <|
    .cons throws_assign <| .cons throws_assign <| .cons throws_assign <| .cons throws_assign <|
    .cons throws_percentage <| .cons throws_assign <| .cons throws_assign <|
    .cons throws_assign <| .cons throws_rewards .nil
  refine throws_runSteps each ?_ memory
  by_contra all
  simp only [List.mem_cons, not_or, Bool.false_eq, Bool.not_eq_false, List.not_mem_nil,
    Option.isSome_iff_exists] at all
  obtain ⟨⟨_, version⟩, ⟨_, balance⟩, ⟨_, earned⟩, ⟨_, withdrawn⟩, ⟨_, blocks⟩, ⟨_, height⟩,
    ⟨_, created⟩, ⟨_, updated⟩, ⟨_, percentage⟩, ⟨_, wallet⟩, ⟨_, enabled⟩, ⟨_, threshold⟩,
    ⟨_, rewards⟩, _⟩ := all
  rw [readIn, version, balance, earned, withdrawn, blocks, height, created, updated, percentage,
    wallet, enabled, threshold, rewards] at unread
  cases unread

/-- A text is no JSON text, or its version cannot be read. -/
def FailsAtOnce (text : Option (Doc Double)) : Prop :=
  ∀ doc, text = some doc → readVersion doc = none

theorem deserializeState_of_failsAtOnce {text : Option (Doc Double)} (fails : FailsAtOnce text)
    (memory : Memory Double) : deserializeState doubles now text memory = (memory, .ok false) := by
  cases text with
  | none => rfl
  | some doc => rw [deserializeState, parseState, runSteps, assign, fails doc rfl]

/-! ## The version stays -/

/-- A step that does not write the version. -/
def KeepsVersion (step : Step Double) : Prop :=
  ∀ doc memory, (step doc memory).1.state.version = memory.state.version

theorem keepsVersion_assign {Value : Type} {read : Doc Double → Option Value}
    {set : PurseState Double → Value → PurseState Double}
    (kept : ∀ state value, (set state value).version = state.version) :
    KeepsVersion (assign read set) := by
  intro doc memory
  rw [assign]
  split
  · rfl
  · exact kept _ _

theorem keepsVersion_percentage : KeepsVersion (stepPercentage doubles) := by
  intro doc memory
  rw [stepPercentage]
  split
  · rfl
  · split <;> rfl

theorem keepsVersion_loadRewards (items : List (Doc Double)) (memory : Memory Double) :
    (loadRewards doubles items memory).1.state.version = memory.state.version := by
  induction items generalizing memory with
  | nil => rfl
  | cons reward rest ih =>
      rw [loadRewards]
      split
      · rfl
      · rw [ih]

theorem keepsVersion_rewards : KeepsVersion (stepRewards doubles) := by
  intro doc memory
  rw [stepRewards]
  dsimp only
  split
  · rw [keepsVersion_loadRewards]
  · rfl

theorem keepsVersion_runSteps {steps : List (Step Double)}
    (kept : ∀ step ∈ steps, KeepsVersion step) :
    KeepsVersion (runSteps steps) := by
  intro doc memory
  induction steps generalizing memory with
  | nil => rfl
  | cons step rest ih =>
      obtain ⟨first, others⟩ := List.forall_mem_cons.mp kept
      have before := first doc memory
      rw [runSteps]
      split
      next after threw =>
        rw [threw] at before
        exact before
      next after went =>
        rw [went] at before
        exact (ih others after).trans before

theorem keepsVersion_laterSteps : ∀ step ∈ laterSteps doubles now, KeepsVersion step := by
  simp only [laterSteps, List.forall_mem_cons]
  refine ⟨keepsVersion_assign ?_, keepsVersion_assign ?_, keepsVersion_assign ?_,
    keepsVersion_assign ?_, keepsVersion_assign ?_, keepsVersion_assign ?_, keepsVersion_assign ?_,
    keepsVersion_percentage, keepsVersion_assign ?_, keepsVersion_assign ?_, keepsVersion_assign ?_,
    keepsVersion_rewards, fun _ none => nomatch none⟩
  all_goals exact fun _ _ => rfl

/-- A version that is read stays in memory, also when a later field is bad. -/
theorem version_parseState {version : Bytes} (read : readVersion doc = some version)
    (memory : Memory Double) :
    (parseState doubles now (some doc) memory).1.state.version = version := by
  rw [parseState, runSteps, assign, read]
  exact keepsVersion_runSteps keepsVersion_laterSteps doc _

theorem deserializeState_fst (text : Option (Doc Double)) (memory : Memory Double) :
    (deserializeState doubles now text memory).1 = (parseState doubles now text memory).1 := by
  rw [deserializeState]
  split
  next went => rw [went]
  next threw => rw [threw]

/-- A bad text leaves every memory as it was exactly when it fails at once. -/
theorem untouched_iff {text : Option (Doc Double)} (anyMemory : Memory Double) :
    (∀ memory, (deserializeState doubles now text memory).1 = memory) ↔ FailsAtOnce text := by
  constructor
  · intro untouched doc same
    cases read : readVersion doc with
    | none => rfl
    | some version =>
        let other : Memory Double :=
          { anyMemory with state := { anyMemory.state with version := 0 :: version } }
        have kept := congrArg (fun memory => memory.state.version) (untouched other)
        rw [deserializeState_fst, same] at kept
        have longer := congrArg List.length ((version_parseState read other).symm.trans kept)
        exact absurd longer (Nat.ne_of_lt (Nat.lt_succ_self _))
  · intro fails memory
    rw [deserializeState_of_failsAtOnce fails]

/-! ## The constructor -/

/-- A percentage between zero and one is accepted. -/
theorem construct_in_range {leftover : PurseState Double} {percentage : Double}
    {files : Files Double}
    (above : doubles.le percentage doubles.zero = false)
    (below : doubles.le doubles.one percentage = false) :
    ∃ purse after, construct doubles now leftover percentage files = some (purse, after) := by
  rw [construct, above, below, if_neg (not_or.mpr ⟨Bool.false_ne_true, Bool.false_ne_true⟩)]
  split <;> exact ⟨_, _, rfl⟩

/-- A bad purse file leads to a new purse over what was read of it. -/
theorem construct_of_bad {leftover : PurseState Double} {percentage : Double}
    {files after : Files Double}
    {text : Option (Doc Double)} {purse : Keeper Double} {partly : Memory Double}
    (present : files.purse = some text)
    (bad : deserializeState doubles now text ⟨blank leftover, percentage⟩ = (partly, .ok false))
    (constructed : construct doubles now leftover percentage files = some (purse, after)) :
    purse.memory.state = initialise doubles now partly.state := by
  rw [construct] at constructed
  split at constructed
  · cases constructed
  · rw [loadFromDisk, present] at constructed
    dsimp only at constructed
    rw [bad] at constructed
    cases constructed
    rfl

/-- A purse file that is read is taken as it is. -/
theorem construct_of_read {leftover state : PurseState Double} {percentage : Double}
    {files after : Files Double} {text : Option (Doc Double)} {purse : Keeper Double}
    (present : files.purse = some text) (read : readState doubles now text = some state)
    (constructed : construct doubles now leftover percentage files = some (purse, after)) :
    purse.memory.state = state := by
  obtain ⟨doc, rfl, held⟩ := Option.bind_eq_some_iff.mp read
  obtain ⟨share, _, parsed⟩ := parseState_read held ⟨blank leftover, percentage⟩
  rw [construct] at constructed
  split at constructed
  · cases constructed
  · rw [loadFromDisk, present] at constructed
    dsimp only at constructed
    rw [deserializeState, parsed] at constructed
    cases constructed
    rfl

/-- A text is accepted over any memory exactly when a state is read from it. -/
theorem deserializeState_snd (text : Option (Doc Double)) (memory : Memory Double) :
    (deserializeState doubles now text memory).2 = .ok (readState doubles now text).isSome := by
  cases text with
  | none => rfl
  | some doc =>
      rw [deserializeState, readState, Option.bind_some]
      cases read : readIn doubles now doc with
      | none =>
          have threw := parseState_unread read memory
          split
          next after went =>
            rw [went] at threw
            cases threw
          next => rfl
      | some state =>
          obtain ⟨share, _, parsed⟩ := parseState_read read memory
          rw [parsed]
          rfl

end Backup

/-! ## A damaged purse -/

/-- Exact fractions as doubles. -/
def rationals : Doubles ℚ where
  zero := 0
  one := 1
  add := (· + ·)
  sub := (· - ·)
  mul := (· * ·)
  div := (· / ·)
  le first second := decide (first ≤ second)
  lt first second := decide (first < second)
  ofUnsigned value := value.toNat
  ofNegative value := value.toInt
  toInt value := Int32.ofInt (value.num.tdiv value.den)
  toUnsigned value := UInt64.ofInt (value.num.tdiv value.den)

/-- Memory that happens to hold zeros. -/
def zeroState : PurseState ℚ := ⟨0, 0, 0, 0, 0, 0, 0, [], false, 0, [], []⟩

/-- The state of a purse at a height. -/
def stateAt (height : UInt64) : PurseState ℚ :=
  { initialise rationals 5 (blank zeroState) with lastBlockHeight := height }

/-- A document with a height. -/
def heightDoc : Doc ℚ := .object [("last_block_height", .unsigned 7)]

/-- The same height, with something that is no list of rewards. -/
def listlessDoc : Doc ℚ :=
  .object [("last_block_height", .unsigned 7), ("recent_rewards", .bool true)]

/-- One percent is accepted. -/
theorem construct_rationals (files : Files ℚ) :
    ∃ purse after, construct rationals 5 zeroState (1 / 100) files = some (purse, after) :=
  construct_in_range (by norm_num [rationals]) (by norm_num [rationals])

end Purse

end PiSecure
