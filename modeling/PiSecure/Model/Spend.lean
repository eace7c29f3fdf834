import PiSecure.Model.Names
import PiSecure.Model.Storage

/-! # Checks of a transaction

The checks that mempool admission, mempool reload and block validation share:
outpoints and balances, signatures, registrations and flags.
-/

namespace PiSecure

/-- What `find_outpoint` finds. -/
structure FoundOutput where
  value : UInt64
  owner : Text
  born : Nat
deriving DecidableEq

/-- `find_outpoint`: the UTXO set first, then the outputs of earlier
transactions, which count as created at the spending height. -/
def findOutpoint (utxo : UtxoSet) (prior : List Tx) (prev : Digest) (vout : UInt32)
    (spendHeight : Nat) : Option FoundOutput :=
  match utxo.lookup (prev, vout) with
  | some rec => some ⟨rec.value, rec.address, if rec.height = 0 then spendHeight else rec.height⟩
  | none =>
      match prior.find? fun tx => tx.txid = prev ∧ vout.toNat < tx.outputs.length with
      | some tx =>
          tx.outputs[vout.toNat]?.map fun output => ⟨output.value, output.address, spendHeight⟩
      | none => none

/-! ## Balance -/

/-- Whether an earlier transaction spends the outpoint of an input. -/
def spentBy (prior : List Tx) (input : TxIn) : Bool :=
  prior.any fun earlier => earlier.inputs.any fun spent =>
    spent.vout == input.vout && spent.prev == input.prev

/-- The worth of an output at the spending height. -/
def worthAt (spendHeight : Nat) (found : FoundOutput) : Option UInt64 :=
  if spendHeight ≥ piActivationHeight ∧ found.born < piActivationHeight then
    if found.value > uint64Max / piPerOldUnit then none else some (found.value * piPerOldUnit)
  else some found.value

/-- The input loop of `check_spendable`. -/
def sumInputs (utxo : UtxoSet) (prior : List Tx) (spendHeight : Nat) :
    List TxIn → UInt64 → Except String UInt64
  | [], total => .ok total
  | input :: rest, total =>
      if spentBy prior input then .error "unknown input"
      else
        match findOutpoint utxo prior input.prev input.vout spendHeight with
        | none => .error "unknown input"
        | some found =>
            match worthAt spendHeight found with
            | none => .error "amount overflow"
            | some worth =>
                if total > uint64Max - worth then .error "amount overflow"
                else sumInputs utxo prior spendHeight rest (total + worth)

/-- The output loop of `check_spendable`; the sum wraps. -/
def sumOutputs (outputs : List TxOut) : UInt64 :=
  outputs.foldl (fun total output => total + output.value) 0

/-- `check_spendable`. -/
def checkSpendable (utxo : UtxoSet) (tx : Tx) (spendHeight : Nat) (prior : List Tx)
    (release : UInt64) : Except String Unit :=
  if tx.inputs.isEmpty then .error "transaction inputs missing"
  else if tx.fee < minFeeForHeight spendHeight then .error "fee too low"
  else
    match sumInputs utxo prior spendHeight tx.inputs 0 with
    | .error reason => .error reason
    | .ok inputValue =>
        let need := sumOutputs tx.outputs + tx.fee + tx.escrowLock
        let available := inputValue + release
        if tx.flagKind ≠ .none then
          if available ≠ need then .error "insufficient funds" else .ok ()
        else if need > available then .error "insufficient funds"
        else .ok ()

/-! ## Signatures -/

/-- `address_filename`. -/
def addressFilename (address : Text) : Bool :=
  !address.isEmpty && address.size ≤ 128 &&
    address.all fun c => c.isAlphanum || c == '.' || c == '_' || c == '-'

/-- The key files in the wallets directory, by address. -/
abbrev Wallets := Text → Option Json

/-- `bound_public_key`. -/
def boundPublicKey (wallets : Wallets) (address : Text) : Option Text :=
  if ¬addressFilename address then none
  else
    match wallets address with
    | none => none
    | some doc =>
        match doc.text? "scheme", doc.text? "public_key" with
        | some scheme, some publicKey =>
            if scheme = "ed25519".toList ∧
                (decodeHex (lowerHex publicKey)).any fun raw => raw.length == 32 then
              some (lowerHex publicKey)
            else none
        | _, _ => none

/-- The check of one input in `verify_input_signatures`. -/
def verifyInput (host : Host) (wallets : Wallets) (utxo : UtxoSet) (message : Bytes)
    (requireLocalKey : Bool) (prior : List Tx) (input : TxIn) : Except String Unit :=
  match findOutpoint utxo prior input.prev input.vout 0 with
  | none => .error "unknown input"
  | some found =>
      let ps1Owner := isLongAddress found.owner
      let bound := boundPublicKey wallets found.owner
      if requireLocalKey ∧ bound.isNone ∧ ¬ps1Owner then .error "address has no spending key"
      else if input.signatureHex.isEmpty then
        -- A synced historical block may predate signatures; a ps1 output never does.
        if requireLocalKey ∨ ps1Owner then .error "signature missing" else .ok ()
      else if input.publicKeyHex.isEmpty then .error "public key does not match address"
      else
        let presented := lowerHex input.publicKeyHex
        if bound.any (· != presented) then .error "public key does not match address"
        else
          match decodeHex presented with
          | none => .error "public key does not match address"
          | some pubkey =>
              if pubkey.length ≠ 32 then .error "public key does not match address"
              else if ps1Owner ∧ host.longAddress pubkey ≠ found.owner then
                .error "public key does not match address"
              else if (decodeHex input.signatureHex).any fun sig =>
                  host.ed25519Verify pubkey sig message then .ok ()
              else .error "signature invalid"

/-- `verify_input_signatures`. -/
def verifyInputSignatures (host : Host) (wallets : Wallets) (utxo : UtxoSet) (tx : Tx)
    (requireLocalKey : Bool) (prior : List Tx) : Except String Unit :=
  if tx.inputs.isEmpty then .error "transaction inputs missing"
  else tx.inputs.forM (verifyInput host wallets utxo (signPayload tx) requireLocalKey prior)

/-! ## Registrations -/

/-- The check of one input in `admit_register`. -/
def registerInput (host : Host) (utxo : UtxoSet) (address : Text) (prior : List Tx)
    (input : TxIn) : Except String Unit :=
  match findOutpoint utxo prior input.prev input.vout 0 with
  | none => .error "unknown input"
  | some found =>
      if found.owner ≠ address then .error "address does not match signer"
      else if
          (decodeHex input.publicKeyHex).any fun pubkey => host.longAddress pubkey == address then
        .ok ()
      else .error "address does not match signer"

/-- `admit_register`. A matching grant is remembered even when a later check
rejects the transaction. -/
def admitRegister (host : Host) (namesFile : Option Json) (utxo : UtxoSet) (tx : Tx)
    (localPolicy : Bool) (prior : List Tx) (names : NameTable) : NameTable × Except String Unit :=
  if ¬tx.reg then (names, .ok ())
  else if ¬validShortname tx.name then (names, .error "name invalid")
  else if ¬isLongAddress tx.regAddress then (names, .error "address does not match signer")
  else
    match tx.inputs.forM (registerInput host utxo tx.regAddress prior) with
    | .error reason => (names, .error reason)
    | .ok () =>
        if (names.findName tx.name).any fun rec => rec.address != tx.regAddress then
          (names, .error "name is taken")
        else if isReservedName tx.name ∧ localPolicy then
          match names.grantMatches namesFile tx.name tx.regAddress with
          | (next, true) => (next, .ok ())
          | (next, false) => (next, .error "name is reserved")
        else (names, .ok ())

/-! ## Flags -/

/-- `claim_release`. -/
def claimRelease (tx : Tx) (book : FlagBook) (prior : List Tx) : UInt64 :=
  if tx.flagKind ≠ .claim then 0
  else
    match book.find tx.flagId with
    | some flag => flag.bountyUnits
    | none =>
        match prior.find? fun earlier =>
            earlier.flagKind = .create ∧ earlier.flagId = tx.flagId with
        | some earlier => earlier.bountyUnits
        | none => 0

/-- The outputs of a claim: whether each pays the bounty to the recipient or
goes to the awards address. -/
def claimOutputs (tx : Tx) (flag : Flag) (awards : Text) : Except String Nat :=
  tx.outputs.foldlM (fun paid output =>
    if output.address = tx.recipient then
      if flag.bountyUnits = 0 ∨ output.value ≠ flag.bountyUnits then .error "malformed transaction"
      else .ok (paid + 1)
    else if output.address ≠ awards then .error "malformed transaction"
    else .ok paid) 0

/-- `flag_outputs_ok`, for a transaction with at least one input. -/
def flagOutputsOk (host : Host) (utxo : UtxoSet) (tx : Tx) (flag : Option Flag)
    (prior : List Tx) : Except String Unit :=
  match tx.flagKind, tx.inputs.head? with
  | .none, _ => .ok ()
  | _, none => .error "unknown input"
  | kind, some first =>
      match findOutpoint utxo prior first.prev first.vout 0 with
      | none => .error "unknown input"
      | some found =>
          if kind = .create then
            if tx.outputs.all fun output => output.address == found.owner then .ok ()
            else .error "malformed transaction"
          else
            match flag with
            | none => .error "unknown flag"
            | some flag =>
                match decodeHex flag.awardsPubkey with
                | none => .error "awards signature required"
                | some raw =>
                    match claimOutputs tx flag (host.longAddress raw) with
                    | .error reason => .error reason
                    | .ok paid =>
                        if flag.bountyUnits = 0 ∧ paid ≠ 0 then .error "malformed transaction"
                        else if flag.bountyUnits > 0 ∧ paid ≠ 1 then
                          .error "malformed transaction"
                        else .ok ()

/-- The flag that a createflag transaction makes. -/
def incomingFlag (tx : Tx) : Flag where
  id := tx.flagId
  commitment := tx.commitment
  awardsPubkey := tx.awardsPubkey
  maxClaims := tx.maxClaims
  expiresHeight := tx.expiresHeight
  bountyUnits := tx.bountyUnits
  note := tx.note
  escrow := 0
  txid := toHex tx.txid
  claimants := []
  claimTxids := []

/-- `apply_flag_tx`. -/
def applyFlagTx (book : FlagBook) (tx : Tx) (height : Nat) : Except String FlagBook :=
  match tx.flagKind with
  | .create => book.create (incomingFlag tx)
  | .claim =>
      let signer := (tx.inputs.head?.map fun input => lowerHex input.publicKeyHex).getD []
      book.claim tx.flagId tx.recipient signer height (toHex tx.txid)
  | .none => .ok book

end PiSecure
