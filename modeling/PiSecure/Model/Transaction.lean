import PiSecure.Model.Flags
import PiSecure.Model.Host

/-! # Transactions

The transaction of `chain_rpc.cpp`: its canonical bytes and id, the JSON that
is stored and signed, and the parser of a user transaction with every reason
it rejects with.
-/

namespace PiSecure

/-- `TxIn`. -/
structure TxIn where
  prev : Digest
  vout : UInt32
  signatureHex : Text
  publicKeyHex : Text
deriving DecidableEq

/-- `TxOut`. -/
structure TxOut where
  value : UInt64
  address : Text
deriving DecidableEq

/-- `Tx::FlagKind`. -/
inductive FlagKind where
  | none
  | create
  | claim
deriving DecidableEq

/-- `Tx`. -/
structure Tx where
  version : Nat := 1
  coinbase : Bool := false
  reg : Bool := false
  height : Nat := 0
  fee : UInt64 := 0
  name : Text := []
  regAddress : Text := []
  flagKind : FlagKind := .none
  flagId : Text := []
  commitment : Text := []
  awardsPubkey : Text := []
  maxClaims : UInt32 := 0
  expiresHeight : UInt32 := 0
  bountyUnits : UInt64 := 0
  note : Text := []
  recipient : Text := []
  escrowLock : UInt64 := 0
  inputs : List TxIn := []
  outputs : List TxOut := []
  txid : Digest := Digest.zero

/-- An outpoint: a transaction id and an output index. -/
abbrev Outpoint := Digest × UInt32

def TxIn.outpoint (input : TxIn) : Outpoint := (input.prev, input.vout)

def kMaxTxBytes : Nat := 100000
def kMaxTxJsonBytes : Nat := 64 * 1024
def kMaxTxInputs : Nat := 200
def kMaxBlockBytes : Nat := 256 * 1024

/-! ## Canonical bytes -/

/-- A string with its 16-bit length. -/
def sizedText (text : Text) : Bytes := u16Bytes text.size ++ text.bytes

/-- The bytes of the inputs in a canonical transaction. -/
def inputBytes (inputs : List TxIn) : Bytes :=
  inputs.flatMap fun input => input.prev.bytes ++ u32Bytes input.vout.toNat

/-- The bytes of the outputs in a canonical transaction. -/
def outputBytes (outputs : List TxOut) : Bytes :=
  outputs.flatMap fun output => u64Bytes output.value.toNat ++ sizedText output.address

/-- The flag suffix of a canonical transaction. -/
def flagBytes (tx : Tx) : Bytes :=
  match tx.flagKind with
  | .none => []
  | .create =>
      Text.bytes "FLAG1".toList ++ sizedText tx.flagId ++ (decodeHex tx.commitment).getD [] ++
        (decodeHex tx.awardsPubkey).getD [] ++ u32Bytes tx.maxClaims.toNat ++
        u32Bytes tx.expiresHeight.toNat ++ u64Bytes tx.bountyUnits.toNat ++ sizedText tx.note
  | .claim => Text.bytes "FLAG2".toList ++ sizedText tx.flagId ++ sizedText tx.recipient

/-- The register suffix of a canonical transaction. -/
def regBytes (tx : Tx) : Bytes :=
  if tx.reg then Text.bytes "REG1".toList ++ sizedText tx.name ++ sizedText tx.regAddress else []

/-- `canonical_tx`. -/
def canonicalTx (tx : Tx) : Bytes :=
  Text.bytes "TX1".toList ++ u32Bytes tx.version ++ [if tx.coinbase then 1 else 0] ++
    u32Bytes tx.inputs.length ++ inputBytes tx.inputs ++
    u32Bytes tx.outputs.length ++ outputBytes tx.outputs ++
    u64Bytes tx.fee.toNat ++ u32Bytes (if tx.coinbase then tx.height else 0) ++
    flagBytes tx ++ regBytes tx

/-- `txid_of`. -/
def txidOf (host : Host) (tx : Tx) : Digest := host.sha256 (canonicalTx tx)

/-! ## Merkle root -/

/-- One level of the tree; a last id without a partner is paired with itself. -/
def merkleLevel (host : Host) : List Digest → List Digest
  | [] => []
  | [last] => [host.sha256Pair last last]
  | left :: right :: rest => host.sha256Pair left right :: merkleLevel host rest

theorem length_merkleLevel (host : Host) (ids : List Digest) :
    (merkleLevel host ids).length = (ids.length + 1) / 2 := by
  induction ids using merkleLevel.induct with
  | case1 => rfl
  | case2 last => rw [merkleLevel, List.length_singleton, List.length_singleton]
  | case3 left right rest ih =>
      rw [merkleLevel, List.length_cons, ih, List.length_cons, List.length_cons]
      omega

/-- `merkle_root`. -/
def merkleRoot (host : Host) (ids : List Digest) : Digest :=
  match ids with
  | [] => Digest.zero
  | [root] => root
  | left :: right :: rest => merkleRoot host (merkleLevel host (left :: right :: rest))
termination_by ids.length
decreasing_by
  rw [length_merkleLevel]
  simp only [List.length_cons]
  omega

/-! ## JSON forms -/

/-- An input in the JSON of a transaction. -/
def inputToJson (input : TxIn) : Json :=
  .ofMembers <|
    [("prev_txid", .string (toHex input.prev)), ("vout", .unsigned input.vout.toUInt64)] ++
    (if input.signatureHex.isEmpty then [] else [("signature", .string input.signatureHex)]) ++
    (if input.publicKeyHex.isEmpty then [] else [("public_key", .string input.publicKeyHex)])

/-- An output in the JSON of a transaction. -/
def outputToJson (output : TxOut) : Json :=
  .ofMembers [("address", .string output.address), ("value", .unsigned output.value)]

/-- The register members of the JSON of a transaction. -/
def regMembers (tx : Tx) : List (String × Json) :=
  if tx.reg then
    [("type", .string "register".toList), ("name", .string tx.name),
      ("address", .string tx.regAddress)]
  else []

/-- The flag members of the JSON of a transaction. -/
def flagMembers (tx : Tx) : List (String × Json) :=
  match tx.flagKind with
  | .none => []
  | .create =>
      [("type", .string "createflag".toList), ("flag_id", .string tx.flagId),
        ("commitment", .string tx.commitment), ("awards_pubkey", .string tx.awardsPubkey),
        ("max_claims", .unsigned tx.maxClaims.toUInt64),
        ("expires_height", .unsigned tx.expiresHeight.toUInt64),
        ("bounty_units", .unsigned tx.bountyUnits), ("note", .string tx.note)]
  | .claim =>
      [("type", .string "claimflag".toList), ("flag_id", .string tx.flagId),
        ("recipient", .string tx.recipient)]

/-- `tx_to_json`. -/
def txToJson (tx : Tx) : Json :=
  .ofMembers <|
    [("txid", .string (toHex tx.txid)),
      ("version", .unsigned (UInt64.ofNat tx.version)),
      ("inputs", .array (tx.inputs.map inputToJson)),
      ("outputs", .array (tx.outputs.map outputToJson)),
      ("fee", .unsigned tx.fee),
      ("spendable", .bool !tx.inputs.isEmpty),
      ("signed", .bool (!tx.inputs.isEmpty && tx.inputs.all fun input =>
        !input.signatureHex.isEmpty)),
      ("size", .unsigned (UInt64.ofNat (canonicalTx tx).length))] ++
    regMembers tx ++ flagMembers tx

/-- An input in the signed JSON of a transaction. -/
def signedInput (input : TxIn) : Json :=
  .ofMembers
    [("prev_txid", .string (toHex input.prev)), ("vout", .unsigned input.vout.toUInt64)]

/-- `sign_payload`: the transaction without its signature fields. -/
def signPayload (tx : Tx) : Bytes :=
  Text.bytes <| Json.dump <| .ofMembers <|
    [("fee", .unsigned tx.fee), ("inputs", .array (tx.inputs.map signedInput)),
      ("outputs", .array (tx.outputs.map outputToJson)),
      ("version", .unsigned (UInt64.ofNat tx.version))] ++
    regMembers tx ++ flagMembers tx

/-! ## Parsing -/

/-- `is_long_address`. -/
def isLongAddress (address : Text) : Bool :=
  address.size = 67 && address.take 3 = "ps1".toList &&
    (address.drop 3).all fun c => ('0' ≤ c && c ≤ '9') || ('a' ≤ c && c ≤ 'f')

/-- One output of `parse_outputs`. -/
def parseOutput (height : Nat) (item : Json) : Except String TxOut :=
  match item.text? "address", item.get? "value" with
  | some address, some value =>
      match storedFromJsonAmount value height false with
      | .error reason => .error reason
      | .ok amount =>
          if address.isEmpty ∨ address.size > 256 ∨ amount = 0 then
            .error "transaction output invalid"
          else .ok ⟨amount, address⟩
  | _, _ => .error "transaction output invalid"

/-- `parse_outputs`. -/
def parseOutputs (height : Nat) (field : Json) : Except String (List TxOut) :=
  match field with
  | .array (first :: rest) => (first :: rest).mapM (parseOutput height)
  | _ => .error "transaction output invalid"

/-- One input of `parse_inputs`. -/
def parseInput (item : Json) : Except String TxIn :=
  match item.text? "prev_txid", item.unsigned? "vout" with
  | some prevTxid, some vout =>
      match fromHex prevTxid with
      | none => .error "malformed transaction"
      | some prev =>
          .ok ⟨prev, vout.toUInt32, (item.text? "signature").getD [],
            (item.text? "public_key").getD []⟩
  | _, _ => .error "malformed transaction"

/-- `parse_inputs`. -/
def parseInputs (field : Json) : Except String (List TxIn) :=
  match field with
  | .array items => items.mapM parseInput
  | _ => .error "malformed transaction"

/-- The createflag fields of `parse_user_tx`. -/
def parseCreateflag (obj : Json) (tx : Tx) : Except String Tx :=
  match obj.text? "commitment", obj.text? "awards_pubkey", obj.unsigned? "max_claims",
    obj.unsigned? "expires_height", obj.unsigned? "bounty_units", obj.text? "note" with
  | some commitment, some awardsPubkey, some maxClaims, some expiresHeight, some bountyUnits,
    some note =>
      if hex64 commitment ∧ hex64 awardsPubkey ∧ note.size ≤ 80 then
        match escrowLock maxClaims.toUInt32 bountyUnits with
        | .error reason => .error reason
        | .ok lock =>
            .ok { tx with
              flagKind := .create
              commitment := lowerHex commitment
              awardsPubkey := lowerHex awardsPubkey
              maxClaims := maxClaims.toUInt32
              expiresHeight := expiresHeight.toUInt32
              bountyUnits := bountyUnits
              note := note
              escrowLock := lock }
      else .error "malformed transaction"
  | _, _, _, _, _, _ => .error "malformed transaction"

/-- The claimflag fields of `parse_user_tx`. -/
def parseClaimflag (obj : Json) (tx : Tx) : Except String Tx :=
  match obj.text? "recipient" with
  | some recipient =>
      if isLongAddress recipient then .ok { tx with flagKind := .claim, recipient := recipient }
      else .error "malformed transaction"
  | none => .error "malformed transaction"

/-- The flag fields of `parse_user_tx`, for a transaction of the given type. -/
def parseFlag (obj : Json) (kind : Text) (tx : Tx) : Except String Tx :=
  if kind = "register".toList then .ok tx
  else
    match obj.text? "flag_id" with
    | some flagId =>
        if flagIdOk flagId then
          if kind = "createflag".toList then parseCreateflag obj { tx with flagId := flagId }
          else parseClaimflag obj { tx with flagId := flagId }
        else .error "flag id invalid"
    | none => .error "flag id invalid"

/-- The case folding of the registered address in `parse_user_tx`. -/
def foldRegAddress (address : Text) : Text :=
  if address.size = 67 ∧ lowerAscii (address.take 3) = "ps1".toList then
    "ps1".toList ++ lowerHex (address.drop 3)
  else address

/-- The type of a transaction and the fields that go with it. A flag
transaction registers a name as well. -/
def parseKind (obj : Json) (tx : Tx) : Except String Tx :=
  match obj.text? "type" with
  | none => .ok tx
  | some kind =>
      if kind ≠ "register".toList ∧ kind ≠ "createflag".toList ∧ kind ≠ "claimflag".toList then
        .error "malformed transaction"
      else
        match parseFlag obj kind tx with
        | .error reason => .error reason
        | .ok flagged =>
            match obj.text? "name", obj.text? "address" with
            | some name, some address =>
                .ok { flagged with reg := true, name := name, regAddress := foldRegAddress address }
            | _, _ => .error "name invalid"

/-- The inputs and outputs of a transaction, and its size and id. -/
def parseBody (host : Host) (obj : Json) (height : Nat) (tx : Tx) : Except String Tx :=
  match obj.get? "inputs", obj.get? "outputs" with
  | some inputsField, some outputsField =>
      if (inputsField.asArray?.map List.length).getD 0 > kMaxTxInputs then .error "tx too large"
      else
        match parseInputs inputsField with
        | .error reason => .error reason
        | .ok inputs =>
            match parseOutputs height outputsField with
            | .error reason => .error reason
            | .ok outputs =>
                let full := { tx with inputs := inputs, outputs := outputs }
                if (canonicalTx full).length > kMaxTxBytes then .error "tx too large"
                else .ok { full with txid := txidOf host full }
  | _, _ => .error "malformed transaction"

/-- `parse_user_tx`: a transaction as a block at `height` reads it. -/
def parseUserTx (host : Host) (obj : Json) (height : Nat) : Except String Tx :=
  if ¬obj.isObject then .error "malformed transaction"
  else if obj.dumpSize > kMaxTxJsonBytes then .error "tx too large"
  else if (obj.unsigned? "version").map UInt64.toUInt32 ≠ some 1 then
    .error "malformed transaction"
  else
    match obj.get? "fee" with
    | none => .error "fee too low"
    | some feeField =>
        match storedFromJsonAmount feeField height true with
        | .error reason => .error reason
        | .ok fee =>
            match parseKind obj { fee := fee } with
            | .error reason => .error reason
            | .ok tx => parseBody host obj height tx

end PiSecure
