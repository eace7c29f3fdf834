import PiSecure.Model.Codec

/-! # Amounts, subsidies and fee shares

`amount.hpp` and the amount rules of `chain_rpc.hpp`. Below the activation
height a stored amount is the old unit of 1000 pi; from it on a stored amount
is pi.
-/

namespace PiSecure

/-- `kPiPer314ST`: 1 314ST is 1000000 pi. -/
def piPer314ST : UInt64 := 1000000

/-- `UINT64_MAX`. -/
def uint64Max : UInt64 := 0xffffffffffffffff

/-- The digit loop of `parse_314st_pi`, guarded against overflow. -/
def accumulate : Text → UInt64 → Option UInt64
  | [], out => some out
  | c :: digits, out =>
      let digit := UInt64.ofNat (c.toNat - '0'.toNat)
      if out > (uint64Max - digit) / 10 then none else accumulate digits (out * 10 + digit)

/-- The fraction scaled to six decimal places. -/
def scaleFraction : Nat → UInt64 → Option UInt64
  | 0, value => some value
  | missing + 1, value =>
      if value > uint64Max / 10 then none else scaleFraction missing (value * 10)

/-- `parse_314st_pi`: decimal 314ST text to pi. -/
def parse314stPi (text : Text) : Except String UInt64 :=
  let malformed := "amount must be 314ST, for example 0.216000"
  if text.isEmpty then .error malformed
  else if text.any (fun c => c ≠ '.' ∧ ¬('0' ≤ c ∧ c ≤ '9')) then .error malformed
  else if text.count '.' > 1 then .error malformed
  else
    let whole := text.takeWhile (· ≠ '.')
    let dotted := text.any (· = '.')
    let frac := (text.dropWhile (· ≠ '.')).drop 1
    if whole.isEmpty || (dotted && frac.isEmpty) then .error malformed
    else if Text.size frac > 6 then .error "amount has more than six decimal places"
    else
      match accumulate whole 0 with
      | none => .error "amount overflow"
      | some wholeValue =>
          match (accumulate frac 0).bind (scaleFraction (6 - Text.size frac)) with
          | none => .error "amount overflow"
          | some fracValue =>
              if wholeValue > uint64Max / piPer314ST then .error "amount overflow"
              else
                let scaled := wholeValue * piPer314ST
                if scaled > uint64Max - fracValue then .error "amount overflow"
                else if scaled + fracValue = 0 then .error "amount must be greater than 0"
                else .ok (scaled + fracValue)

/-- `format_314st_pi`. -/
def format314stPi (pi : UInt64) : Text :=
  let frac := Json.decimal (pi.toNat % piPer314ST.toNat)
  Json.decimal (pi.toNat / piPer314ST.toNat) ++ '.' ::
    (List.replicate (6 - frac.length) '0' ++ frac)

/-! ## Heights and units -/

def minDifficultyBits : UInt32 := 2
def maxDifficultyBits : UInt32 := 4
def initialDifficultyBits : UInt32 := 4
def difficultyActivationHeight : Nat := 1
def miner216ActivationHeight : Nat := 32
def legacyMinerSubsidy : UInt64 := 198
def subsidyUnits : UInt64 := 200
def subsidyUnitsAfterActivation : UInt64 := 218
def validatorUnits : UInt64 := 2
def piActivationHeight : Nat := 3000
def piPerOldUnit : UInt64 := 1000
def subsidyPi : UInt64 := 218000
def validatorPi : UInt64 := 2000
def minFeePi : UInt64 := 314

/-- `subsidy_for_height`. -/
def subsidyForHeight (height : Nat) : UInt64 :=
  if height ≥ piActivationHeight then subsidyPi
  else if height ≥ miner216ActivationHeight then subsidyUnitsAfterActivation
  else subsidyUnits

/-- `validator_for_height`. -/
def validatorForHeight (height : Nat) : UInt64 :=
  if height ≥ piActivationHeight then validatorPi else validatorUnits

/-- `miner_subsidy_for_height`. -/
def minerSubsidyForHeight (height : Nat) : UInt64 :=
  subsidyForHeight height - validatorForHeight height

/-- `min_fee_for_height`. -/
def minFeeForHeight (height : Nat) : UInt64 :=
  if height ≥ piActivationHeight then minFeePi else 1

/-- `stored_to_pi`: a stored amount of a block at `createdHeight` in pi. -/
def storedToPi (stored : UInt64) (createdHeight : Nat) : Option UInt64 :=
  if createdHeight ≥ piActivationHeight then some stored
  else if stored > uint64Max / piPerOldUnit then none
  else some (stored * piPerOldUnit)

/-! ## Fee shares and emission -/

/-- `FeeShares`. -/
structure FeeShares where
  miner : UInt64
  stakers : UInt64
  loans : UInt64
  foundation : UInt64
  burn : UInt64

/-- `fee_shares`. -/
def feeShares (fee : UInt64) : FeeShares :=
  let miner := fee * 60 / 100
  let stakers := fee * 20 / 100
  let loans := fee * 8 / 100
  let foundation := fee * 7 / 100
  ⟨miner, stakers, loans, foundation, fee - (miner + stakers + loans + foundation)⟩

/-- `coinbase_subsidy_ok`. -/
def coinbaseSubsidyOk (height : Nat) (fee paidMiner paidValidator : UInt64) : Except String Unit :=
  if height ≥ piActivationHeight ∧
      (paidMiner = 216 ∨ paidMiner = 218 ∨ paidMiner = legacyMinerSubsidy) then
    .error "coinbase subsidy mismatch"
  else if paidValidator ≠ validatorForHeight height then .error "coinbase validator amount"
  else
    let shares := feeShares fee
    if height ≥ miner216ActivationHeight then
      if paidMiner ≠ minerSubsidyForHeight height + shares.miner then
        .error "coinbase subsidy mismatch"
      else .ok ()
    else if paidMiner ≠ legacyMinerSubsidy + shares.miner ∧
        paidMiner ≠ (subsidyUnitsAfterActivation - validatorUnits) + shares.miner then
      .error "coinbase subsidy mismatch"
    else .ok ()

/-- `kFoundationPayout`. -/
def foundationPayout : Text :=
  "ps1522db177e6452cbb6e48f296b19e6f2bdeb5b5e7a41a9552eb60a01464c3a5ba".toList

/-- `Emission`. -/
structure Emission where
  subsidy : UInt64
  minerSubsidy : UInt64
  validator : UInt64
  fee : UInt64
  minerFee : UInt64
  stakers : UInt64
  loans : UInt64
  foundation : UInt64
  burn : UInt64

/-- `Emission::miner_cap`. -/
def Emission.minerCap (emission : Emission) : UInt64 := emission.minerSubsidy + emission.minerFee

/-- `emission_for`. -/
def emissionFor (height : Nat) (fee : UInt64) : Emission :=
  let shares := feeShares fee
  { subsidy := subsidyForHeight height
    minerSubsidy := subsidyForHeight height - validatorForHeight height
    validator := validatorForHeight height
    fee := fee
    minerFee := shares.miner
    stakers := shares.stakers
    loans := shares.loans
    foundation := shares.foundation
    burn := shares.burn }

/-- `units_314st`: an amount as the coinbase of a stored block shows it. -/
def units314st (stored : UInt64) (createdHeight : Nat) : Text :=
  match storedToPi stored createdHeight with
  | some pi => format314stPi pi
  | none => "0.000000".toList

/-- `stored_from_json_amount`: an unsigned number is the stored integer of the
height; a string is a 314ST decimal, converted to the unit of the height. -/
def storedFromJsonAmount (field : Json) (height : Nat) (fee : Bool) : Except String UInt64 :=
  let invalid := if fee then "fee too low" else "transaction output invalid"
  let checked (stored : UInt64) : Except String UInt64 :=
    if stored = 0 then .error invalid
    else if fee ∧ stored < minFeeForHeight height then .error "fee too low"
    else .ok stored
  match field with
  | .double _ _ => .error "amount has more than six decimal places"
  | .string text =>
      match parse314stPi text with
      | .error reason =>
          .error (if reason = "amount must be greater than 0" then invalid else reason)
      | .ok pi =>
          if height ≥ piActivationHeight then checked pi
          else if pi % piPerOldUnit ≠ 0 then
            .error "amount must be a multiple of 0.001 314ST until height 3000"
          else checked (pi / piPerOldUnit)
  | .unsigned stored => checked stored
  | _ => .error invalid

/-- An unsigned amount above the minimum is read as itself. -/
theorem storedFromJsonAmount_unsigned (stored : UInt64) (height : Nat) (fee : Bool)
    (nonzero : stored ≠ 0) (enough : fee = true → minFeeForHeight height ≤ stored) :
    storedFromJsonAmount (.unsigned stored) height fee = .ok stored := by
  have kept : ¬(fee = true ∧ stored < minFeeForHeight height) :=
    fun low => UInt64.not_lt.mpr (enough low.1) low.2
  simp only [storedFromJsonAmount, nonzero, kept, ↓reduceIte]

/-- An accepted amount is positive, and an accepted fee reaches the minimum. -/
theorem storedFromJsonAmount_ok {field : Json} {height : Nat} {fee : Bool} {stored : UInt64}
    (read : storedFromJsonAmount field height fee = .ok stored) :
    stored ≠ 0 ∧ (fee = true → minFeeForHeight height ≤ stored) := by
  unfold storedFromJsonAmount at read
  have checked : ∀ value : UInt64,
      (if value = 0 then Except.error (if fee then "fee too low" else "transaction output invalid")
        else if fee = true ∧ value < minFeeForHeight height then .error "fee too low"
        else .ok value) = (.ok stored : Except String UInt64) →
      stored ≠ 0 ∧ (fee = true → minFeeForHeight height ≤ stored) := by
    intro value accepted
    split at accepted
    · cases accepted
    next nonzero =>
      split at accepted
      · cases accepted
      next enough =>
        cases accepted
        exact ⟨nonzero, fun isFee => UInt64.not_lt.mp fun low => enough ⟨isFee, low⟩⟩
  cases field with
  | unsigned value => exact checked value read
  | string text =>
      simp only at read
      split at read
      · cases read
      · split at read
        · exact checked _ read
        · split at read
          · cases read
          · exact checked _ read
  | double text whole => cases read
  | null => cases read
  | bool value => cases read
  | negative value => cases read
  | array items => cases read
  | object members => cases read

end PiSecure
