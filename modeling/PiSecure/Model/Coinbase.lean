import PiSecure.Model.Chain
import PiSecure.Model.PiHash
import PiSecure.Model.Retarget

/-! # Coinbase and difficulty

What a block at a height has to pay and to whom, and the difficulty of the
block that follows the tip.
-/

namespace PiSecure

/-- `CbOut`. -/
structure CbOut where
  role : Text
  address : Text
  units : UInt64
deriving DecidableEq

/-- `coinbase_from`: the outputs that are not zero, as a coinbase. -/
def coinbaseFrom (host : Host) (height : Nat) (outs : List CbOut) : Tx :=
  let outputs := (outs.filter fun out => out.units != 0).map fun out => ⟨out.units, out.address⟩
  let tx : Tx := { coinbase := true, height := height, outputs := outputs }
  { tx with txid := txidOf host tx }

/-- `template_coinbase`. -/
def templateCoinbase (wallet validator : Text) (emission : Emission) : List CbOut :=
  [⟨"miner".toList, wallet, emission.minerCap⟩,
    ⟨"validator".toList, validator, emission.validator⟩] ++
  (if emission.stakers > 0 then [⟨"stakers".toList, "stakers".toList, emission.stakers⟩]
    else []) ++
  (if emission.loans > 0 then [⟨"loans".toList, "loans".toList, emission.loans⟩] else []) ++
  (if emission.foundation > 0 then
    [⟨"foundation".toList, foundationPayout, emission.foundation⟩] else [])

/-- An output in the coinbase of a stored block. -/
def cbOutToJson (height : Nat) (out : CbOut) : Json :=
  .ofMembers
    [("role", .string out.role), ("address", .string out.address), ("units", .unsigned out.units),
      ("amount", .string (units314st out.units height))]

/-- `coinbase_body`. -/
def coinbaseBody (wallet : Text) (height : Nat) (emission : Emission) (coinbase : Tx)
    (outs : List CbOut) : Json :=
  .ofMembers
    [("wallet", .string wallet), ("height", .unsigned (UInt64.ofNat height)),
      ("txid", .string (toHex coinbase.txid)),
      ("unit", .string (if height ≥ piActivationHeight then "0.000001 314ST".toList
        else "0.001 314ST".toList)),
      ("subsidy", .string (units314st emission.subsidy height)),
      ("subsidy_units", .unsigned emission.subsidy),
      ("outputs", .array ((outs.filter fun out => out.units != 0).map (cbOutToJson height))),
      ("fee_units", .unsigned emission.fee),
      ("shares_units", .ofMembers
        [("miner", .unsigned emission.minerFee), ("stakers", .unsigned emission.stakers),
          ("loans", .unsigned emission.loans), ("foundation", .unsigned emission.foundation),
          ("burn", .unsigned emission.burn)])]

/-! ## Difficulty -/

/-- `clamp_difficulty`. -/
def clampDifficulty (bits : UInt32) : UInt32 :=
  if bits < minDifficultyBits then minDifficultyBits
  else if bits > maxDifficultyBits then maxDifficultyBits
  else bits

/-- The difficulty of the tip, or the initial one when the tip has none. -/
def tipBits (storage : Storage) : UInt32 :=
  if storage.tipDifficulty = 0 then initialDifficultyBits else storage.tipDifficulty

/-- `next_difficulty_legacy`. -/
def nextDifficultyLegacy (storage : Storage) : UInt32 :=
  if ¬storage.hasTip then initialDifficultyBits
  else
    let diff := clampDifficulty (tipBits storage)
    match storage.getHeaderByHash storage.bestBlockHash with
    | none => diff
    | some tip =>
        if tip.height < 2 then diff
        else
          match storage.getHeaderByHeight (tip.height - 1) with
          | none => diff
          | some parent =>
              if tip.timestamp ≤ parent.timestamp then diff
              else
                let interval := tip.timestamp - parent.timestamp
                if interval < 60 ∧ diff < maxDifficultyBits then diff + 1
                else if interval > 60 ∧ diff > minDifficultyBits then diff - 1
                else diff

/-- `next_difficulty_window`. -/
def nextDifficultyWindow (storage : Storage) : UInt32 :=
  if ¬storage.hasTip then initialDifficultyBits
  else
    let bits := clampBits (tipBits storage)
    match storage.getHeaderByHash storage.bestBlockHash with
    | none => bits
    | some tip =>
        if tip.height < 10 then bits
        else
          match storage.getHeaderByHeight (tip.height - 9) with
          | none => bits
          | some older =>
              retargetDifficultyBits bits (tip.timestamp.toInt64 - older.timestamp.toInt64)

/-- `next_difficulty`. -/
def nextDifficulty (storage : Storage) : UInt32 :=
  if (if storage.hasTip then storage.bestHeight + 1 else 1) < difficultyActivationHeight then
    nextDifficultyLegacy storage
  else nextDifficultyWindow storage

end PiSecure
