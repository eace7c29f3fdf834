import PiSecure.General.Json
import PiSecure.General.Run

/-! # The purse of a validator

`ValidatorPurse`: the rewards that are kept, and how they are written to a file and
read back. The arithmetic of doubles is given, and a file holds the document that its
text is parsed to, or none when it is no JSON text. A text is any byte string, and one
that is not UTF-8 cannot be written. The clock does not move during a call.
-/

namespace PiSecure

namespace Purse

/-! ## Doubles and documents -/

/-- The operations on doubles, and the conversions that reading a number makes. -/
structure Doubles (Double : Type) where
  zero : Double
  one : Double
  add : Double → Double → Double
  sub : Double → Double → Double
  mul : Double → Double → Double
  div : Double → Double → Double
  le : Double → Double → Bool
  lt : Double → Double → Bool
  ofUnsigned : UInt64 → Double
  ofNegative : Int64 → Double
  toInt : Double → Int32
  toUnsigned : Double → UInt64

/-- A document with doubles as values. -/
inductive Doc (Double : Type) where
  | null
  | bool (value : Bool)
  | unsigned (value : UInt64)
  | negative (value : Int64)
  | double (value : Double)
  | string (value : Bytes)
  | array (items : List (Doc Double))
  | object (members : List (String × Doc Double))

variable {Double : Type} (doubles : Doubles Double)

namespace Doc

/-- `get<int>`. -/
def asInt : Doc Double → Option Int32
  | .unsigned value => some value.toUInt32.toInt32
  | .negative value => some value.toInt32
  | .double value => some (doubles.toInt value)
  | .bool value => some (if value then 1 else 0)
  | _ => none

/-- `get<uint64_t>`. -/
def asUnsigned : Doc Double → Option UInt64
  | .unsigned value => some value
  | .negative value => some value.toUInt64
  | .double value => some (doubles.toUnsigned value)
  | _ => none

/-- `get<double>`. -/
def asDouble : Doc Double → Option Double
  | .unsigned value => some (doubles.ofUnsigned value)
  | .negative value => some (doubles.ofNegative value)
  | .double value => some value
  | _ => none

/-- `get<bool>`. -/
def asBool : Doc Double → Option Bool
  | .bool value => some value
  | _ => none

/-- `get<std::string>`. -/
def asText : Doc Double → Option Bytes
  | .string value => some value
  | _ => none

/-- A member of an object. -/
def find? : Doc Double → String → Option (Doc Double)
  | .object members, key => members.lookup key
  | _, _ => none

/-- `value`: a member of an object or its default; none when it throws. -/
def value {Value : Type} (read : Doc Double → Option Value) (doc : Doc Double) (key : String)
    (default : Value) : Option Value :=
  match doc with
  | .object members =>
      match members.lookup key with
      | none => some default
      | some found => read found
  | _ => none

end Doc

/-! ## The state -/

/-- `RewardEntry`. -/
structure RewardEntry (Double : Type) where
  blockHeight : UInt64
  amount : Double
  blockReward : Double
  percentage : Double
  timestamp : UInt64
  validatorCount : UInt32
  blockHash : Bytes

/-- `PurseState`. -/
structure PurseState (Double : Type) where
  totalBalance : Double
  lifetimeEarned : Double
  lifetimeWithdrawn : Double
  blocksValidated : UInt64
  lastBlockHeight : UInt64
  createdAt : UInt64
  lastUpdated : UInt64
  linkedWalletAddress : Bytes
  autoSweepEnabled : Bool
  autoSweepThreshold : Double
  recentRewards : List (RewardEntry Double)
  version : Bytes

/-- What a purse keeps in memory. -/
structure Memory (Double : Type) where
  state : PurseState Double
  rewardsPercentage : Double

/-- A purse, and whether its state needs saving. -/
structure Keeper (Double : Type) where
  memory : Memory Double
  dirty : Bool

/-- The purse file and its backup, each with its document when it is JSON. -/
structure Files (Double : Type) where
  purse : Option (Option (Doc Double))
  bak : Option (Option (Doc Double))

/-! ## Reading -/

/-- An `int` that is assigned to 64 bits. -/
def widen (value : Int32) : UInt64 := value.toInt64.toUInt64

/-- A reward as it is read; every member has a default. -/
def readReward (reward : Doc Double) : Option (RewardEntry Double) := do
  let blockHeight ← reward.value (Doc.asInt doubles) "block_height" 0
  let amount ← reward.value (Doc.asDouble doubles) "amount" doubles.zero
  let blockReward ← reward.value (Doc.asDouble doubles) "block_reward" doubles.zero
  let percentage ← reward.value (Doc.asDouble doubles) "percentage" doubles.zero
  let timestamp ← reward.value (Doc.asInt doubles) "timestamp" 0
  let validatorCount ← reward.value (Doc.asInt doubles) "validator_count" 0
  let blockHash ← reward.value Doc.asText "block_hash" []
  return ⟨widen blockHeight, amount, blockReward, percentage, widen timestamp,
    validatorCount.toUInt32, blockHash⟩

/-- A step of `deserialize_state`: what memory holds then, and whether it did not throw. -/
abbrev Step (Double : Type) := Doc Double → Memory Double → Memory Double × Bool

/-- The assignment of what is read to memory. -/
def assign {Value : Type} (read : Doc Double → Option Value)
    (set : PurseState Double → Value → PurseState Double) : Step Double := fun doc memory =>
  match read doc with
  | none => (memory, false)
  | some value => ({ memory with state := set memory.state value }, true)

/-- The loop over the rewards. -/
def loadRewards : List (Doc Double) → Memory Double → Memory Double × Bool
  | [], memory => (memory, true)
  | reward :: rest, memory =>
      match readReward doubles reward with
      | none => (memory, false)
      | some entry =>
          loadRewards rest { memory with
            state := { memory.state with recentRewards := memory.state.recentRewards ++ [entry] } }

/-- The rewards are cleared before they are read. -/
def stepRewards : Step Double := fun doc memory =>
  let cleared := { memory with state := { memory.state with recentRewards := [] } }
  match doc.find? "recent_rewards" with
  | some (.array items) => loadRewards doubles items cleared
  | _ => (cleared, true)

def stepPercentage : Step Double := fun doc memory =>
  match doc.find? "rewards_percentage" with
  | none => (memory, true)
  | some found =>
      match found.asDouble doubles with
      | none => (memory, false)
      | some value => ({ memory with rewardsPercentage := value }, true)

/-- The steps after the version, in their order. -/
def laterSteps (now : UInt64) : List (Step Double) :=
  [assign (·.value (Doc.asDouble doubles) "total_balance" doubles.zero) fun state value =>
      { state with totalBalance := value },
    assign (·.value (Doc.asDouble doubles) "lifetime_earned" doubles.zero) fun state value =>
      { state with lifetimeEarned := value },
    assign (·.value (Doc.asDouble doubles) "lifetime_withdrawn" doubles.zero) fun state value =>
      { state with lifetimeWithdrawn := value },
    assign (·.value (Doc.asInt doubles) "blocks_validated" 0) fun state value =>
      { state with blocksValidated := widen value },
    assign (·.value (Doc.asInt doubles) "last_block_height" 0) fun state value =>
      { state with lastBlockHeight := widen value },
    assign (·.value (Doc.asUnsigned doubles) "created_at" now) fun state value =>
      { state with createdAt := value },
    assign (·.value (Doc.asUnsigned doubles) "last_updated" now) fun state value =>
      { state with lastUpdated := value },
    stepPercentage doubles,
    assign (·.value Doc.asText "linked_wallet_address" []) fun state value =>
      { state with linkedWalletAddress := value },
    assign (·.value Doc.asBool "auto_sweep_enabled" false) fun state value =>
      { state with autoSweepEnabled := value },
    assign (·.value (Doc.asDouble doubles) "auto_sweep_threshold" doubles.zero) fun state value =>
      { state with autoSweepThreshold := value },
    stepRewards doubles]

/-- Steps one after the other, up to one that throws. -/
def runSteps : List (Step Double) → Step Double
  | [], _, memory => (memory, true)
  | step :: rest, doc, memory =>
      match step doc memory with
      | (after, false) => (after, false)
      | (after, true) => runSteps rest doc after

/-- The version of a new purse. -/
def firstVersion : Bytes := Text.bytes "1.0".toList

/-- The version in a document. -/
def readVersion (doc : Doc Double) : Option Bytes := doc.value Doc.asText "version" firstVersion

/-- The body of the `try` in `deserialize_state`. -/
def parseState (now : UInt64) (text : Option (Doc Double)) (memory : Memory Double) :
    Memory Double × Bool :=
  match text with
  | none => (memory, false)
  | some doc =>
      runSteps (assign readVersion (fun state value => { state with version := value }) ::
        laterSteps doubles now) doc memory

/-- `deserialize_state`: what the body throws is caught, and the result is false. -/
def deserializeState (now : UInt64) (text : Option (Doc Double)) (memory : Memory Double) :
    Memory Double × Except String Bool :=
  match parseState doubles now text memory with
  | (after, true) => (after, .ok true)
  | (after, false) => (after, .ok false)

/-- `restore_from_backup`. -/
def restoreFromBackup (now : UInt64) (memory : Memory Double) (files : Files Double) :
    Memory Double × Files Double × Bool :=
  match files.bak with
  | none => (memory, files, false)
  | some text =>
      match deserializeState doubles now text memory with
      | (after, .ok true) => (after, { files with purse := some text }, true)
      | (after, _) => (after, files, false)

/-- `load_from_disk`: the backup is for what `deserialize_state` throws. -/
def loadFromDisk (now : UInt64) (memory : Memory Double) (files : Files Double) :
    Memory Double × Files Double × Bool :=
  match files.purse with
  | none => (memory, files, false)
  | some text =>
      match deserializeState doubles now text memory with
      | (after, .ok result) => (after, files, result)
      | (after, .error _) => restoreFromBackup doubles now after files

/-! ## Writing -/

def rewardToDoc (entry : RewardEntry Double) : Doc Double :=
  .object [("amount", .double entry.amount), ("block_hash", .string entry.blockHash),
    ("block_height", .unsigned entry.blockHeight), ("block_reward", .double entry.blockReward),
    ("percentage", .double entry.percentage), ("timestamp", .unsigned entry.timestamp),
    ("validator_count", .unsigned entry.validatorCount.toUInt64)]

/-- The document of `serialize_state`. -/
def stateToDoc (memory : Memory Double) : Doc Double :=
  let state := memory.state
  .object [("auto_sweep_enabled", .bool state.autoSweepEnabled),
    ("auto_sweep_threshold", .double state.autoSweepThreshold),
    ("blocks_validated", .unsigned state.blocksValidated),
    ("created_at", .unsigned state.createdAt),
    ("last_block_height", .unsigned state.lastBlockHeight),
    ("last_updated", .unsigned state.lastUpdated),
    ("lifetime_earned", .double state.lifetimeEarned),
    ("lifetime_withdrawn", .double state.lifetimeWithdrawn),
    ("linked_wallet_address", .string state.linkedWalletAddress),
    ("recent_rewards", .array (state.recentRewards.map rewardToDoc)),
    ("rewards_percentage", .double memory.rewardsPercentage),
    ("total_balance", .double state.totalBalance), ("version", .string state.version)]

/-- The texts of a state. -/
def PurseState.texts (state : PurseState Double) : List Bytes :=
  state.version :: state.linkedWalletAddress :: state.recentRewards.map RewardEntry.blockHash

/-- A text that `dump` writes. -/
def isUtf8 (text : Bytes) : Bool := text.toByteArray.validateUTF8

/-- `serialize_state`; none when the dump throws, on a text that is not UTF-8. -/
def serializeState (memory : Memory Double) : Option (Doc Double) :=
  if memory.state.texts.all isUtf8 then some (stateToDoc memory) else none

/-- `create_backup`. -/
def createBackup (files : Files Double) : Files Double :=
  if files.purse.isSome then { files with bak := files.purse } else files

/-- `save_to_disk`: a clean purse is not written, and one whose dump throws only has its file
backed up. -/
def saveToDisk (purse : Keeper Double) (files : Files Double) : Keeper Double × Files Double :=
  if ¬purse.dirty then (purse, files)
  else
    match serializeState purse.memory with
    | none => (purse, createBackup files)
    | some doc =>
        ({ purse with dirty := false }, { createBackup files with purse := some (some doc) })

/-! ## The life of a purse -/

/-- Memory before the constructor runs: strings and lists are empty, the rest is left over. -/
def blank (leftover : PurseState Double) : PurseState Double :=
  { leftover with linkedWalletAddress := [], recentRewards := [], version := [] }

/-- The state of a new purse; the wallet, the sweep and the rewards are not set. -/
def initialise (now : UInt64) (state : PurseState Double) : PurseState Double :=
  { state with
    totalBalance := doubles.zero
    lifetimeEarned := doubles.zero
    lifetimeWithdrawn := doubles.zero
    blocksValidated := 0
    lastBlockHeight := 0
    createdAt := now
    lastUpdated := now
    version := firstVersion }

/-- The constructor; none when it throws. -/
def construct (now : UInt64) (leftover : PurseState Double) (percentage : Double)
    (files : Files Double) : Option (Keeper Double × Files Double) :=
  if doubles.le percentage doubles.zero ∨ doubles.le doubles.one percentage then none
  else
    match loadFromDisk doubles now ⟨blank leftover, percentage⟩ files with
    | (memory, files, true) => some (⟨memory, false⟩, files)
    | (memory, files, false) =>
        some (saveToDisk ⟨{ memory with state := initialise doubles now memory.state }, false⟩
          files)

/-- The destructor. -/
def destroy (purse : Keeper Double) (files : Files Double) : Files Double :=
  if purse.dirty then (saveToDisk purse files).2 else files

/-- `add_recent_reward`: the latest hundred. -/
def addRecentReward (entry : RewardEntry Double) (rewards : List (RewardEntry Double)) :
    List (RewardEntry Double) := (entry :: rewards).take 100

/-- The share of a block that a validator gets. -/
def rewardAmount (purse : Keeper Double) (blockReward : Double) (validatorCount : UInt32) :
    Double :=
  if validatorCount > 0 then
    doubles.div (doubles.mul blockReward purse.memory.rewardsPercentage)
      (doubles.ofUnsigned validatorCount.toUInt64)
  else doubles.zero

/-- `add_reward`. -/
def addReward (now : UInt64) (blockHeight : UInt64) (blockHash : Bytes) (blockReward : Double)
    (validatorCount : UInt32) (purse : Keeper Double) : Keeper Double × Double :=
  let state := purse.memory.state
  if blockHeight ≤ state.lastBlockHeight then (purse, doubles.zero)
  else
    let amount := rewardAmount doubles purse blockReward validatorCount
    if doubles.le amount doubles.zero then (purse, doubles.zero)
    else
      let entry : RewardEntry Double := ⟨blockHeight, amount, blockReward,
        purse.memory.rewardsPercentage, now, validatorCount, blockHash⟩
      (⟨{ purse.memory with
          state := { state with
            totalBalance := doubles.add state.totalBalance amount
            lifetimeEarned := doubles.add state.lifetimeEarned amount
            blocksValidated := state.blocksValidated + 1
            lastBlockHeight := blockHeight
            lastUpdated := now
            recentRewards := addRecentReward entry state.recentRewards } }, true⟩, amount)

/-- `withdraw`. -/
def withdraw (now : UInt64) (amount : Double) (purse : Keeper Double) (files : Files Double) :
    Keeper Double × Files Double × Double :=
  let state := purse.memory.state
  let taken := if doubles.le amount doubles.zero then state.totalBalance else amount
  if doubles.lt state.totalBalance taken then (purse, files, doubles.zero)
  else
    let (purse, files) := saveToDisk ⟨{ purse.memory with
      state := { state with
        totalBalance := doubles.sub state.totalBalance taken
        lifetimeWithdrawn := doubles.add state.lifetimeWithdrawn taken
        lastUpdated := now } }, true⟩ files
    (purse, files, taken)

/-- `link_wallet`. -/
def linkWallet (now : UInt64) (walletAddress : Bytes) (purse : Keeper Double)
    (files : Files Double) :
    Keeper Double × Files Double :=
  if walletAddress.isEmpty then (purse, files)
  else
    saveToDisk ⟨{ purse.memory with
      state := { purse.memory.state with
        linkedWalletAddress := walletAddress
        lastUpdated := now } }, true⟩ files

/-- `set_auto_sweep`. -/
def setAutoSweep (now : UInt64) (enabled : Bool) (threshold : Double) (purse : Keeper Double) :
    Keeper Double :=
  ⟨{ purse.memory with
    state := { purse.memory.state with
      autoSweepEnabled := enabled
      autoSweepThreshold := threshold
      lastUpdated := now } }, true⟩

/-- `reset`, which does not mark the purse. -/
def reset (now : UInt64) (purse : Keeper Double) (files : Files Double) :
    Keeper Double × Files Double :=
  saveToDisk { purse with
    memory := { purse.memory with
      state := { purse.memory.state with
        totalBalance := doubles.zero
        lifetimeEarned := doubles.zero
        lifetimeWithdrawn := doubles.zero
        blocksValidated := 0
        lastBlockHeight := 0
        createdAt := now
        lastUpdated := now
        recentRewards := [] } } } files

/-! ## Calls -/

/-- A call of a method that changes a purse, at a time of the clock. -/
inductive Call (Double : Type) where
  | addReward (now blockHeight : UInt64) (blockHash : Bytes) (blockReward : Double)
      (validatorCount : UInt32)
  | withdraw (now : UInt64) (amount : Double)
  | linkWallet (now : UInt64) (walletAddress : Bytes)
  | setAutoSweep (now : UInt64) (enabled : Bool) (threshold : Double)
  | reset (now : UInt64)
  | save

/-- A purse with its files after a call. -/
def perform (world : Keeper Double × Files Double) : Call Double → Keeper Double × Files Double
  | .addReward now blockHeight blockHash blockReward validatorCount =>
      ((addReward doubles now blockHeight blockHash blockReward validatorCount world.1).1, world.2)
  | .withdraw now amount =>
      let outcome := withdraw doubles now amount world.1 world.2
      (outcome.1, outcome.2.1)
  | .linkWallet now walletAddress => linkWallet now walletAddress world.1 world.2
  | .setAutoSweep now enabled threshold => (setAutoSweep now enabled threshold world.1, world.2)
  | .reset now => reset doubles now world.1 world.2
  | .save => saveToDisk world.1 world.2

/-- A purse as a machine over its calls. -/
def machine : Machine (Keeper Double × Files Double) (Call Double) Unit where
  step world call := some (perform doubles world call)
  events _ _ := []

end Purse

end PiSecure
