import PiSecure.Model.Names

/-! # The wallet

The commands of `pswallet` that send a transaction, up to the call of the daemon.
What the daemon answers, the key files and the signature of the library are given
to them. Documents are as the daemon reads them, with unsigned numbers.
-/

namespace PiSecure

/-- `amount_scale_for_next`, as the daemon reports it. -/
def amountScaleForNext (height : Nat) : UInt64 :=
  if height ≥ piActivationHeight then piPerOldUnit else 1

namespace Wallet

/-- Go on when a condition holds, or print a message. -/
def ensure (condition : Bool) (message : Text) : Except Text Unit :=
  if condition then .ok () else .error message

/-! ## What the commands are given -/

/-- `Money`. -/
structure Money where
  activation : UInt32
  scale : UInt32

/-- `Coin`; the daemon lists its id in hex. -/
structure Coin where
  txid : Digest
  vout : UInt32
  worth : UInt64
deriving DecidableEq

/-- `Key`, with what the library signs under its secret. -/
structure Key where
  publicHex : Text
  sign : Bytes → Except Text Text

/-- The order in which `std::sort` leaves coins: the worthiest first, with any order among
coins of one worth. -/
structure CoinOrder where
  sort : List Coin → List Coin
  sort_perm : ∀ coins, (sort coins).Perm coins
  sort_sorted : ∀ coins, (sort coins).Pairwise fun first second => second.worth ≤ first.worth

/-- The answers of the daemon and the wallet files. -/
structure Desk where
  /-- `getblockchaininfo`. -/
  info : Json
  /-- `namelookup`: the address of a name that is found. -/
  nameLookup : Text → Except Text (Option Text)
  /-- The coins in `listunspent`. -/
  listUnspent : Text → Except Text (List Coin)
  /-- The outpoints that `getmempool` shows as spent. -/
  reserved : Except Text (List Outpoint)
  /-- `coins_for`, with the outputs in the mempool unless only confirmed ones are asked for. -/
  coinsFor : Text → Bool → Except Text (List Coin)
  /-- `listflags`: the awards key and the bounty of a flag that is found. -/
  listFlag : Text → Except Text (Option (Text × UInt64))
  /-- `load_key`. -/
  loadKey : Text → Except Text Key
  /-- The public key that `read_wallet_doc` finds. -/
  walletKey : Text → Except Text Text
  /-- `default_address`. -/
  defaultAddress : Text
  /-- `wallet_with_pubkey`. -/
  walletWithPubkey : Text → Text
  order : CoinOrder

/-- `load_money`. -/
def loadMoney (desk : Desk) : Except Text Money :=
  match desk.info.unsigned? "pi_activation_height" with
  | none => .error "daemon did not report pi_activation_height".toList
  | some activation =>
      match desk.info.unsigned? "amount_scale" with
      | none => .error "daemon did not report amount_scale".toList
      | some scale =>
          if scale ≠ 1 ∧ scale ≠ 1000 then .error "daemon did not report amount_scale".toList
          else if activation = 0 ∨ activation > 0xffffffff then
            .error "daemon did not report pi_activation_height".toList
          else .ok ⟨activation.toUInt32, scale.toUInt32⟩

/-! ## Amounts -/

/-- `within_milli`: trailing zeros do not add a decimal place. -/
def withinMilli (text : Text) : Bool :=
  let frac := (text.dropWhile (· ≠ '.')).drop 1
  !text.contains '.' || Text.size (frac.reverse.dropWhile (· = '0')) ≤ 3

/-- `parse_amount`: the stored integer and the pi. -/
def parseAmount (text : Text) (money : Money) : Except Text (UInt64 × UInt64) :=
  match parse314stPi text with
  | .error reason => .error reason.toList
  | .ok pi =>
      if money.scale = 1000 then .ok (pi, pi)
      else if ¬withinMilli text ∨ pi % 1000 ≠ 0 then
        .error ("amount must be a multiple of 0.001 314ST until height ".toList ++
          Json.decimal money.activation.toNat)
      else .ok (pi / 1000, pi)

/-- `parse_fee`. -/
def parseFee (text : Text) (money : Money) : Except Text (UInt64 × UInt64) :=
  match parseAmount text money with
  | .error reason => .error reason
  | .ok (stored, pi) =>
      if money.scale = 1000 ∧ pi < 314 then .error "fee too low".toList else .ok (stored, pi)

/-- The fee of a registration or a flag. -/
def fixedFee (money : Money) : UInt64 := if money.scale = 1000 then 1000 else 1

/-- `isspace`. -/
def isSpace (c : Char) : Bool :=
  c == ' ' || c == '\t' || c == '\n' || c == '\x0b' || c == '\x0c' || c == '\r'

/-- `strtoul` in base ten, when it reads the whole text: too large a number gives
`ULONG_MAX`, and a sign negates modulo `2^64`. -/
def strtoul (text : Text) : Option UInt64 :=
  let rest := text.dropWhile isSpace
  let negative := rest.head? = some '-'
  let digits := if negative ∨ rest.head? = some '+' then rest.drop 1 else rest
  if digits.isEmpty ∨ digits.any (fun c => !('0' ≤ c && c ≤ '9')) then none
  else
    let value := digits.foldl (fun value c => value * 10 + (c.toNat - '0'.toNat)) 0
    if value > uint64Max.toNat then some uint64Max
    else some (if negative then 0 - UInt64.ofNat value else UInt64.ofNat value)

/-! ## Addresses -/

/-- `normalize_ps1`: empty for a text that is no long address. -/
def normalizePs1 (text : Text) : Text :=
  let low := lowerAscii text
  if text.size ≠ 67 then []
  else if low.take 3 ≠ "ps1".toList then []
  else if (low.drop 3).all fun c => ('0' ≤ c && c ≤ '9') || ('a' ≤ c && c ≤ 'f') then low
  else []

/-- `resolve_address`. -/
def resolveAddress (desk : Desk) (text : Text) : Except Text Text :=
  let ps1 := normalizePs1 text
  if !ps1.isEmpty then .ok ps1
  else
    match desk.nameLookup text with
    | .error reason => .error reason
    | .ok none => .ok text
    | .ok (some address) => .ok address

/-- A resolved address that is not empty. -/
def addressOf (desk : Desk) (text : Text) : Except Text Text := do
  let address ← resolveAddress desk text
  ensure (!address.isEmpty) []
  return address

/-! ## Coins -/

/-- A row of `listunspent`: an id in hex, or none, and the pi when they are listed. -/
structure Row where
  txid : Option Digest
  vout : UInt32
  units : UInt64
  pi : Option UInt64

/-- `set_worth`. -/
def setWorth (pi : UInt64) (money : Money) : Except Text UInt64 :=
  if money.scale = 1000 then .ok pi
  else if pi % 1000 ≠ 0 then
    .error ("amount must be a multiple of 0.001 314ST until height ".toList ++
      Json.decimal money.activation.toNat)
  else .ok (pi / 1000)

/-- `coin_from_row`. -/
def coinFromRow (row : Row) (money : Money) : Except Text Coin :=
  match row.txid with
  | none => .error "transaction output invalid".toList
  | some txid =>
      if row.units = 0 then .error "transaction output invalid".toList
      else
        match row.pi with
        | some pi => do
            let worth ← setWorth pi money
            return ⟨txid, row.vout, worth⟩
        | none =>
            if money.scale ≠ 1 then .error "utxo missing pi".toList
            else if row.units > uint64Max / 1000 then .error "amount overflow".toList
            else do
              let worth ← setWorth (row.units * 1000) money
              return ⟨txid, row.vout, worth⟩

/-- The coins in the rows; a bad row without units is passed over. -/
def listedCoins (money : Money) : List Row → Except Text (List Coin)
  | [] => .ok []
  | row :: rest =>
      match coinFromRow row money with
      | .ok coin => (listedCoins money rest).map (coin :: ·)
      | .error reason => if row.units = 0 then listedCoins money rest else .error reason

/-- The loop that takes coins until they cover what is needed. -/
def takeCoins (need : UInt64) : List Coin → List Coin → UInt64 → Except Text (List Coin × UInt64)
  | [], chosen, sum => .ok (chosen, sum)
  | coin :: rest, chosen, sum =>
      if sum ≥ need ∨ chosen.length ≥ 200 then .ok (chosen, sum)
      else if sum > uint64Max - coin.worth then .error "amount overflow".toList
      else takeCoins need rest (chosen ++ [coin]) (sum + coin.worth)

/-- `take_units`: the coins and the change. -/
def takeUnits (desk : Desk) (address : Text) (need : UInt64) :
    Except Text (List Coin × UInt64) := do
  let coins ← desk.coinsFor address true
  let (chosen, sum) ← takeCoins need (desk.order.sort coins) [] 0
  ensure (!(sum < need)) (address ++ " has no coin covering the flag fee".toList)
  return (chosen, sum - need)

/-! ## Signing -/

/-- A member of a document. -/
def member (doc : Json) (key : String) : Json := (doc.get? key).getD .null

/-- The items of an array in a document. -/
def items (doc : Json) (key : String) : List Json := (doc.array? key).getD []

/-- The members of the signed text that go with the type. -/
def spendType (tx : Json) : List (String × Json) :=
  let kind := (tx.text? "type").getD []
  if kind = "register".toList then
    [("type", .string "register".toList), ("name", member tx "name"),
      ("address", member tx "address")]
  else if kind = "createflag".toList then
    [("type", .string "createflag".toList), ("flag_id", member tx "flag_id"),
      ("commitment", member tx "commitment"), ("awards_pubkey", member tx "awards_pubkey"),
      ("max_claims", member tx "max_claims"), ("expires_height", member tx "expires_height"),
      ("bounty_units", member tx "bounty_units"), ("note", member tx "note")]
  else if kind = "claimflag".toList then
    [("type", .string "claimflag".toList), ("flag_id", member tx "flag_id"),
      ("recipient", member tx "recipient")]
  else []

/-- `spend_payload`. -/
def spendPayload (tx : Json) : Bytes :=
  Text.bytes <| Json.dump <| .ofMembers <|
    [("fee", member tx "fee"),
      ("inputs", .array ((items tx "inputs").map fun input =>
        .ofMembers [("prev_txid", member input "prev_txid"), ("vout", member input "vout")])),
      ("outputs", .array ((items tx "outputs").map fun output =>
        .ofMembers [("address", member output "address"), ("value", member output "value")])),
      ("version", member tx "version")] ++ spendType tx

/-- A transaction as it goes to the daemon, and the text that was signed. -/
structure Sent where
  payload : Bytes
  tx : Json

/-- `sign_tx`. -/
def signTx (key : Key) (tx : Json) : Except Text Sent := do
  let signature ← key.sign (spendPayload tx)
  return ⟨spendPayload tx, tx.set "inputs" (.array ((items tx "inputs").map fun input =>
    (input.set "public_key" (.string key.publicHex)).set "signature" (.string signature)))⟩

/-! ## Commands -/

/-- An input that spends a coin. -/
def coinInput (coin : Coin) : Json :=
  .ofMembers [("prev_txid", .string (toHex coin.txid)), ("vout", .unsigned coin.vout.toUInt64)]

/-- A document with the members of every transaction and those of its type. -/
def draftTx (fee : UInt64) (coins : List Coin) (outputs : List TxOut)
    (typed : List (String × Json)) :
    Json :=
  .ofMembers <|
    [("version", .unsigned 1), ("fee", .unsigned fee), ("inputs", .array (coins.map coinInput)),
      ("outputs", .array (outputs.map outputToJson))] ++ typed

/-- The output that takes the change, when there is any. -/
def changeOutput (change : UInt64) (address : Text) : List TxOut :=
  if change > 0 then [⟨change, address⟩] else []

/-- `cmd_send`. -/
def cmdSend (desk : Desk) (src dst amount feeText : Text) : Except Text Sent := do
  let money ← loadMoney desk
  let feeUsed :=
    if feeText.isEmpty then
      if money.scale = 1000 then "0.000314".toList else "0.001".toList
    else feeText
  let (pay, payPi) ← parseAmount amount money
  let (fee, feePi) ← parseFee feeUsed money
  let srcAddr ← addressOf desk src
  let dstAddr ← addressOf desk dst
  let key ← desk.loadKey srcAddr
  let listed ← desk.listUnspent srcAddr
  let reserved ← desk.reserved
  let available := listed.filter fun coin => !reserved.contains (coin.txid, coin.vout)
  ensure (!(available.isEmpty && !listed.isEmpty))
    "coins reserved by an unconfirmed transaction".toList
  ensure (!(pay > uint64Max - fee)) "amount overflow".toList
  let (chosen, sum) ← takeCoins (pay + fee) (desk.order.sort available) [] 0
  ensure (!(sum < pay + fee)) (src ++ " has no coin covering ".toList ++ format314stPi payPi ++
    " 314ST plus fee ".toList ++ format314stPi feePi)
  signTx key (draftTx fee chosen (⟨pay, dstAddr⟩ :: changeOutput (sum - (pay + fee)) srcAddr) [])

/-- `cmd_register`; a grant is written to `names.json` before. -/
def cmdRegister (desk : Desk) (name ps1Text : Text) (grant : Bool) : Except Text Sent := do
  let ps1 := normalizePs1 ps1Text
  ensure (validShortname name && !ps1.isEmpty) "usage: pswallet register NAME ps1...".toList
  ensure (!isReservedName name || grant) "name is reserved".toList
  ensure (!grant || isReservedName name) "grant is only for a reserved name".toList
  let money ← loadMoney desk
  let key ← desk.loadKey ps1
  let coins ← desk.coinsFor ps1 false
  let fee := fixedFee money
  let need := if money.scale = 1000 then 2000 else 2
  match coins.find? fun coin => coin.worth ≥ need with
  | none => throw (ps1 ++ " has no coin covering the register fee ".toList ++ format314stPi 1000 ++
      " 314ST".toList)
  | some chosen =>
      signTx key (draftTx fee [chosen] [⟨chosen.worth - fee, ps1⟩]
        [("type", .string "register".toList), ("name", .string name), ("address", .string ps1)])

/-- A number that is given as text. -/
def numberArgument (text : Text) : Except Text UInt64 :=
  match strtoul text with
  | none => .error "malformed transaction".toList
  | some value => .ok value

/-- `cmd_flag_create`. -/
def cmdFlagCreate (desk : Desk) (id commitment awards maxText expiresText bountyText note : Text) :
    Except Text Sent := do
  let money ← loadMoney desk
  ensure (note.size ≤ 80) "malformed transaction".toList
  let maxClaims ← numberArgument maxText
  let expires ← numberArgument expiresText
  let bounty ← numberArgument bountyText
  ensure (!(maxClaims == 0 && bounty != 0)) "unlimited flag cannot pay".toList
  let awardsAddr ← addressOf desk awards
  let awardsPub ← desk.walletKey awardsAddr
  ensure (!desk.defaultAddress.isEmpty) "no spending key".toList
  let key ← desk.loadKey desk.defaultAddress
  let lock := bounty * maxClaims
  let fee := fixedFee money
  ensure (!(lock > uint64Max - fee)) "amount overflow".toList
  let (chosen, change) ← takeUnits desk desk.defaultAddress (lock + fee)
  signTx key (draftTx fee chosen (changeOutput change desk.defaultAddress)
    [("type", .string "createflag".toList), ("flag_id", .string id),
      ("commitment", .string commitment), ("awards_pubkey", .string (lowerHex awardsPub)),
      ("max_claims", .unsigned maxClaims), ("expires_height", .unsigned expires),
      ("bounty_units", .unsigned bounty), ("note", .string note)])

/-- `cmd_flag_claim`. -/
def cmdFlagClaim (desk : Desk) (id recipientText : Text) : Except Text Sent := do
  let money ← loadMoney desk
  let recipient := normalizePs1 recipientText
  ensure (!recipient.isEmpty) "malformed transaction".toList
  match ← desk.listFlag id with
  | none => throw "unknown flag".toList
  | some (awardsPub, bounty) =>
      let awards := desk.walletWithPubkey (lowerHex awardsPub)
      ensure (!awards.isEmpty) "no spending key for awards".toList
      let key ← desk.loadKey awards
      let fee := fixedFee money
      let (chosen, change) ← takeUnits desk awards fee
      signTx key (draftTx fee chosen
        ((if bounty > 0 then [⟨bounty, recipient⟩] else []) ++ changeOutput change awards)
        [("type", .string "claimflag".toList), ("flag_id", .string id),
          ("recipient", .string recipient)])

/-- A command with its arguments. -/
inductive Command where
  | send (src dst amount feeText : Text)
  | register (name ps1Text : Text) (grant : Bool)
  | flagCreate (id commitment awards maxText expiresText bountyText note : Text)
  | flagClaim (id recipientText : Text)

/-- What a command sends. -/
def Command.run (desk : Desk) : Command → Except Text Sent
  | .send src dst amount feeText => cmdSend desk src dst amount feeText
  | .register name ps1Text grant => cmdRegister desk name ps1Text grant
  | .flagCreate id commitment awards maxText expiresText bountyText note =>
      cmdFlagCreate desk id commitment awards maxText expiresText bountyText note
  | .flagClaim id recipientText => cmdFlagClaim desk id recipientText

/-- Whether a command is about a flag. -/
def Command.isFlag : Command → Bool
  | .flagCreate _ _ _ _ _ _ _ => true
  | .flagClaim _ _ => true
  | _ => false

end Wallet

end PiSecure
