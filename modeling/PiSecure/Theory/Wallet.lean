import Mathlib.Data.List.Sort
import PiSecure.Model.Wallet
import PiSecure.Theory.RoundTrip

/-! # The wallet and the node

A payment or a registration that the wallet sends is read by the node as the
transaction that was signed. A flag transaction of the wallet is never read: the
node asks every transaction with a type for a name.
-/

namespace PiSecure

namespace Wallet

/-! ## Addresses and amounts -/

/-- A normalised address is a long address. -/
theorem normalizePs1_long {text : Text} (present : normalizePs1 text ≠ []) :
    isLongAddress (normalizePs1 text) = true := by
  unfold normalizePs1 at present ⊢
  dsimp only at present ⊢
  split at present
  · exact absurd rfl present
  next sized =>
    split at present
    · exact absurd rfl present
    next tagged =>
      split at present
      next digits =>
        rw [if_neg sized, if_neg tagged, if_pos digits]
        simp only [isLongAddress, size_lowerAscii, not_not.mp sized, not_not.mp tagged, decide_true,
          Bool.true_and]
        exact digits
      · exact absurd rfl present

/-- A parsed amount is positive. -/
theorem parse314stPi_pos {text : Text} {pi : UInt64} (parsed : parse314stPi text = .ok pi) :
    pi ≠ 0 := by
  unfold parse314stPi at parsed
  dsimp only at parsed
  repeat' split at parsed
  all_goals cases parsed
  assumption

/-- The scale that a daemon reports is the one of its next height. -/
def Scaled (desk : Desk) (height : Nat) : Prop :=
  desk.info.unsigned? "amount_scale" = some (amountScaleForNext height)

section Money

variable {desk : Desk} {height : Nat} {money : Money} {text : Text} {stored pi : UInt64}

theorem loadMoney_scale (scaled : Scaled desk height) (loaded : loadMoney desk = .ok money) :
    money.scale = 1000 ↔ piActivationHeight ≤ height := by
  unfold loadMoney at loaded
  rw [scaled] at loaded
  dsimp only at loaded
  repeat' split at loaded
  all_goals cases loaded
  change (amountScaleForNext height).toUInt32 = 1000 ↔ _
  unfold amountScaleForNext
  split
  next late => exact ⟨fun _ => late, fun _ => by decide⟩
  next early => exact ⟨fun wrong => absurd wrong (by decide), fun late => absurd late early⟩

theorem parseAmount_pos (parsed : parseAmount text money = .ok (stored, pi)) :
    stored ≠ 0 ∧ (money.scale = 1000 → stored = pi) := by
  unfold parseAmount at parsed
  split at parsed
  · cases parsed
  next read =>
    have positive := parse314stPi_pos read
    split at parsed
    · cases parsed
      exact ⟨positive, fun _ => rfl⟩
    next small =>
      split at parsed
      · cases parsed
      next whole =>
        cases parsed
        refine ⟨fun zero => ?_, fun large => absurd large small⟩
        have divides : pi % 1000 = 0 := not_not.mp (not_or.mp whole).2
        have nat : pi.toNat % 1000 = 0 := by
          have same := congrArg UInt64.toNat divides
          rwa [UInt64.toNat_mod] at same
        have quotient : pi.toNat / 1000 = 0 := by
          have same := congrArg UInt64.toNat zero
          rwa [UInt64.toNat_div] at same
        exact positive (UInt64.toNat_inj.mp (show pi.toNat = 0 by omega))

/-- A parsed fee reaches the minimum of the height. -/
theorem parseFee_enough (scaled : money.scale = 1000 ↔ piActivationHeight ≤ height)
    (parsed : parseFee text money = .ok (stored, pi)) :
    stored ≠ 0 ∧ minFeeForHeight height ≤ stored := by
  unfold parseFee at parsed
  split at parsed
  · cases parsed
  next amount read =>
    obtain ⟨positive, same⟩ := parseAmount_pos read
    split at parsed
    · cases parsed
    next enough =>
      cases parsed
      refine ⟨positive, ?_⟩
      unfold minFeeForHeight
      split
      next late =>
        have large := scaled.mpr late
        rw [same large]
        exact UInt64.not_lt.mp fun low => enough ⟨large, low⟩
      · exact UInt64.le_iff_toNat_le.mpr
          (UInt64.lt_iff_toNat_lt.mp (UInt64.pos_iff_ne_zero.mpr positive))

end Money

/-! ## What is signed -/

/-- The document of a planned transaction, before it is signed. -/
def plannedJson (tx : Tx) (coins : List Coin) : Json :=
  draftTx tx.fee coins tx.outputs (regMembers tx)

/-- The planned transaction with its inputs. -/
def planned (host : Host) (tx : Tx) (coins : List Coin) (publicHex signature : Text) : Tx :=
  let full := { tx with
    inputs := coins.map fun coin : Coin => ⟨coin.txid, coin.vout, signature, publicHex⟩ }
  { full with txid := txidOf host full }

/-- A coin as a signed input. -/
def signedCoin (publicHex signature : Text) (coin : Coin) : Json :=
  ((coinInput coin).set "public_key" (.string publicHex)).set "signature" (.string signature)

section Signing

variable {tx : Tx} {coins : List Coin} {key : Key} {sent : Sent} {doc : Json}

theorem signTx_ok (signed : signTx key doc = .ok sent) :
    sent.payload = spendPayload doc ∧ ∃ signature, key.sign (spendPayload doc) = .ok signature ∧
      sent.tx = doc.set "inputs" (.array ((items doc "inputs").map fun input =>
        (input.set "public_key" (.string key.publicHex)).set "signature" (.string signature))) := by
  unfold signTx at signed
  obtain ⟨signature, made, rest⟩ := bind_eq_ok.mp signed
  rw [← pure_eq_ok.mp rest]
  exact ⟨rfl, signature, made, rfl⟩

theorem coinInput_base (coin : Coin) :
    (coinInput coin).get? "prev_txid" = some (.string (toHex coin.txid)) ∧
      (coinInput coin).get? "vout" = some (.unsigned coin.vout.toUInt64) := by
  rw [coinInput, Json.get?_ofMembers, Json.get?_ofMembers]
  exact ⟨rfl, rfl⟩

theorem plannedJson_get? (key : String) : (plannedJson tx coins).get? key =
    (Json.lookup key (regMembers tx).reverse).or (Json.lookup key
      [("outputs", .array (tx.outputs.map outputToJson)), ("inputs", .array (coins.map coinInput)),
        ("fee", .unsigned tx.fee), ("version", .unsigned 1)]) := by
  rw [plannedJson, draftTx, Json.get?_ofMembers, List.reverse_append, Json.lookup_append]
  rfl

/-- The members that every planned transaction has. -/
theorem plannedJson_base (tx : Tx) (coins : List Coin) :
    (plannedJson tx coins).get? "version" = some (.unsigned 1) ∧
      (plannedJson tx coins).get? "fee" = some (.unsigned tx.fee) ∧
      (plannedJson tx coins).get? "inputs" = some (.array (coins.map coinInput)) ∧
      (plannedJson tx coins).get? "outputs" = some (.array (tx.outputs.map outputToJson)) := by
  simp only [plannedJson_get?, regMembers]
  cases tx.reg <;> exact ⟨rfl, rfl, rfl, rfl⟩

theorem plannedJson_typed (plain : tx.flagKind = .none) : Typed (plannedJson tx coins) tx := by
  have typed := @typed_ofMembers [("version", .unsigned 1), ("fee", .unsigned tx.fee),
    ("inputs", .array (coins.map coinInput)), ("outputs", .array (tx.outputs.map outputToJson))]
    tx <| by
      simp only [typedKeys, List.forall_mem_cons]
      refine ⟨rfl, rfl, rfl, rfl, rfl, rfl, rfl, rfl, rfl, rfl, rfl, fun _ none => ?_⟩
      cases none
  rw [flagMembers, plain, List.append_nil] at typed
  exact typed

/-- The node signs the members that the wallet signs. -/
theorem spendPayload_planned (host : Host) (publicHex signature : Text)
    (plain : tx.flagKind = .none)
    (version : tx.version = 1) : spendPayload (plannedJson tx coins) =
      signPayload (planned host tx coins publicHex signature) := by
  obtain ⟨versionRead, feeRead, inputsRead, outputsRead⟩ := plannedJson_base tx coins
  have inputs : (items (plannedJson tx coins) "inputs").map (fun input => Json.ofMembers
      [("prev_txid", member input "prev_txid"), ("vout", member input "vout")]) =
      (planned host tx coins publicHex signature).inputs.map signedInput := by
    rw [items, Json.array?, inputsRead]
    change (coins.map coinInput).map _ = (coins.map _).map signedInput
    rw [List.map_map, List.map_map]
    refine List.map_congr_left fun coin _ => ?_
    simp only [Function.comp_apply, member, coinInput_base, Option.getD_some, signedInput]
  have outputs : (items (plannedJson tx coins) "outputs").map (fun output => Json.ofMembers
      [("address", member output "address"), ("value", member output "value")]) =
      tx.outputs.map outputToJson := by
    rw [items, Json.array?, outputsRead]
    change (tx.outputs.map outputToJson).map _ = _
    rw [List.map_map]
    refine List.map_congr_left fun output _ => ?_
    obtain ⟨address, value⟩ := outputToJson_base output
    simp only [Function.comp_apply, member, address, value, Option.getD_some]
    rfl
  have typed : spendType (plannedJson tx coins) = regMembers tx := by
    simp only [spendType, Json.text?, member, plannedJson_get?, regMembers]
    cases tx.reg <;> rfl
  have none : flagMembers (planned host tx coins publicHex signature) = [] := by
    unfold flagMembers
    rw [show (planned host tx coins publicHex signature).flagKind = .none from plain]
  have first : (planned host tx coins publicHex signature).version = 1 := version
  rw [spendPayload, inputs, outputs, typed, member, member, versionRead, feeRead, signPayload, none,
    List.append_nil, first]
  rfl

/-- A signed coin is read as the input that spends it. -/
theorem parseInput_signedCoin (publicHex signature : Text) (coin : Coin) :
    parseInput (signedCoin publicHex signature coin) =
      .ok ⟨coin.txid, coin.vout, signature, publicHex⟩ := by
  have object : (coinInput coin).isObject = true := rfl
  have base := coinInput_base coin
  have members : (signedCoin publicHex signature coin).get? "prev_txid" =
        some (.string (toHex coin.txid)) ∧
      (signedCoin publicHex signature coin).get? "vout" = some (.unsigned coin.vout.toUInt64) ∧
      (signedCoin publicHex signature coin).get? "signature" = some (.string signature) ∧
      (signedCoin publicHex signature coin).get? "public_key" = some (.string publicHex) := by
    have written : ((coinInput coin).set "public_key" (.string publicHex)).isObject = true := rfl
    simp [signedCoin, Json.get?_set, written, object, base]
  obtain ⟨prev, vout, signatureRead, publicRead⟩ := members
  unfold parseInput
  simp only [Json.text?, Json.unsigned?, prev, vout, signatureRead, publicRead, Option.bind_some,
    Json.asText?, Json.asUnsigned?, fromHex_toHex, UInt32.toUInt32_toUInt64, Option.getD_some]

/-- The document of a planned transaction that is sent. -/
theorem signed_planned (signed : signTx key (plannedJson tx coins) = .ok sent) :
    ∃ signature, key.sign sent.payload = .ok signature ∧
      sent.payload = spendPayload (plannedJson tx coins) ∧
      sent.tx = (plannedJson tx coins).set "inputs"
        (.array (coins.map (signedCoin key.publicHex signature))) := by
  obtain ⟨payload, signature, made, doc⟩ := signTx_ok signed
  rw [← payload] at made
  refine ⟨signature, made, payload, ?_⟩
  rw [doc, items, Json.array?, (plannedJson_base tx coins).2.2.1]
  rw [show ((some (Json.array (coins.map coinInput))).bind Json.asArray?).getD [] =
    coins.map coinInput from rfl, List.map_map]
  rfl

end Signing

/-! ## Reading what is sent -/

/-- Every output of a document has an address of at most 256 bytes. -/
def ShortOutputs (doc : Json) : Prop :=
  ∀ output ∈ items doc "outputs", ∀ address, output.text? "address" = some address →
    address.size ≤ 256

/-- A payment or a registration as the commands plan it. -/
structure Plan (height : Nat) (tx : Tx) (coins : List Coin) : Prop where
  version : tx.version = 1
  user : tx.coinbase = false ∧ tx.height = 0
  fee : tx.fee ≠ 0 ∧ minFeeForHeight height ≤ tx.fee
  register : tx.RegisterShape
  plain : tx.flagKind = .none
  flag : tx.FlagShape
  names : tx.name.size ≤ 32 ∧ tx.regAddress.size ≤ 67
  coins : coins.length ≤ kMaxTxInputs
  few : tx.outputs.length ≤ 2
  outputs : tx.outputs ≠ [] ∧ ∀ output ∈ tx.outputs, output.value ≠ 0 ∧ output.address ≠ []

section Reading

variable {host : Host} {height : Nat} {tx : Tx} {coins : List Coin} {key : Key} {sent : Sent}

/-- A plan with short outputs is a parsed transaction once it is signed. -/
theorem Plan.parsed (plan : Plan height tx coins) (host : Host) (publicHex signature : Text)
    (short : ∀ output ∈ tx.outputs, output.address.size ≤ 256) :
    (planned host tx coins publicHex signature).Parsed host height where
  version := plan.version
  user := plan.user
  fee := plan.fee
  register := plan.register
  flag := plan.flag
  inputs := by
    change (coins.map _).length ≤ _
    rw [List.length_map]
    exact plan.coins
  outputs := ⟨plan.outputs.1, fun output listed =>
    ⟨(plan.outputs.2 output listed).1, (plan.outputs.2 output listed).2, short output listed⟩⟩
  txid := rfl

/-- A plan is well within the canonical size. -/
theorem Plan.bounded (plan : Plan height tx coins) (host : Host) (publicHex signature : Text)
    (short : ∀ output ∈ tx.outputs, output.address.size ≤ 256) :
    (canonicalTx (planned host tx coins publicHex signature)).length ≤ kMaxTxBytes := by
  have paid : ∀ outputs : List TxOut, (∀ output ∈ outputs, output.address.size ≤ 256) →
      (outputBytes outputs).length ≤ 266 * outputs.length := by
    intro outputs fit
    induction outputs with
    | nil => exact Nat.zero_le _
    | cons output rest ih =>
        obtain ⟨first, others⟩ := List.forall_mem_cons.mp fit
        have tail := ih others
        change ((u64Bytes output.value.toNat ++ sizedText output.address) ++
          outputBytes rest).length ≤ _
        rw [List.length_append, List.length_append, u64Bytes, length_leBytes, length_sizedText,
          List.length_cons]
        omega
  have spent : (inputBytes (planned host tx coins publicHex signature).inputs).length ≤ 7200 := by
    have count := (plan.parsed host publicHex signature short).inputs
    rw [length_inputBytes]
    unfold kMaxTxInputs at count
    omega
  have outputs : (outputBytes (planned host tx coins publicHex signature).outputs).length ≤ 532 :=
    Nat.le_trans (paid tx.outputs short) (Nat.mul_le_mul_left 266 plan.few)
  have flags : flagBytes (planned host tx coins publicHex signature) = [] := by
    unfold flagBytes
    rw [show (planned host tx coins publicHex signature).flagKind = .none from plan.plain]
  have names : (regBytes (planned host tx coins publicHex signature)).length ≤ 107 := by
    rw [length_regBytes]
    obtain ⟨name, address⟩ := plan.names
    change (if tx.reg then 8 + tx.name.size + tx.regAddress.size else 0) ≤ 107
    split <;> omega
  rw [length_canonicalTx, flags, List.length_nil]
  unfold kMaxTxBytes
  omega

/-- The node reads a plan that is sent, when its document is small, as the planned
transaction with its signature. -/
theorem Plan.parses (plan : Plan height tx coins)
    (signed : signTx key (plannedJson tx coins) = .ok sent)
    (short : ∀ output ∈ tx.outputs, output.address.size ≤ 256)
    (small : sent.tx.dumpSize ≤ kMaxTxJsonBytes) :
    ∃ signature, key.sign sent.payload = .ok signature ∧
      parseUserTx host sent.tx height = .ok (planned host tx coins key.publicHex signature) ∧
      signPayload (planned host tx coins key.publicHex signature) = sent.payload := by
  obtain ⟨signature, made, payload, doc⟩ := signed_planned signed
  have object : (plannedJson tx coins).isObject = true := rfl
  obtain ⟨version, fee, _, outputs⟩ := plannedJson_base tx coins
  have written : ∀ name, sent.tx.get? name = if name = "inputs" then
      some (.array (coins.map (signedCoin key.publicHex signature)))
      else (plannedJson tx coins).get? name := fun name => by
    rw [doc, Json.get?_set _ object]
  have typed : Typed sent.tx (planned host tx coins key.publicHex signature) := by
    refine ⟨fun name listed => ?_⟩
    have other : name ≠ "inputs" := by
      rintro rfl
      revert listed
      decide
    rw [written, if_neg other]
    exact (plannedJson_typed plan.plain).get name listed
  have inputs : (coins.map (signedCoin key.publicHex signature)).mapM parseInput =
      .ok (planned host tx coins key.publicHex signature).inputs := by
    refine mapM_eq_ok.mpr ?_
    rw [List.forall₂_map_left_iff]
    change List.Forall₂ _ _ (coins.map _)
    rw [List.forall₂_map_right_iff, List.forall₂_same]
    exact fun coin _ => parseInput_signedCoin key.publicHex signature coin
  refine ⟨signature, made, ?_, ?_⟩
  · exact parseUserTx_of_members (plan.parsed host key.publicHex signature short) typed
      ((written "version").trans version) ((written "fee").trans fee) (written "inputs") inputs
      ((written "outputs").trans outputs) small (plan.bounded host key.publicHex signature short)
  · rw [payload, spendPayload_planned host key.publicHex signature plan.plain plan.version]

/-- The node reads a plan that is sent, when its document is small, as what was signed. -/
theorem Plan.read (plan : Plan height tx coins)
    (signed : signTx key (plannedJson tx coins) = .ok sent)
    (short : ∀ output ∈ tx.outputs, output.address.size ≤ 256)
    (small : sent.tx.dumpSize ≤ kMaxTxJsonBytes) :
    ∃ read, parseUserTx host sent.tx height = .ok read ∧ signPayload read = sent.payload := by
  obtain ⟨signature, _, parses, same⟩ := @Plan.parses host _ _ _ _ _ plan signed short small
  exact ⟨_, parses, same⟩

theorem shortOutputs_iff (signed : signTx key (plannedJson tx coins) = .ok sent) :
    ShortOutputs sent.tx ↔ ∀ output ∈ tx.outputs, output.address.size ≤ 256 := by
  obtain ⟨signature, _, _, doc⟩ := signed_planned signed
  have object : (plannedJson tx coins).isObject = true := rfl
  have outputs : items sent.tx "outputs" = tx.outputs.map outputToJson := by
    rw [items, Json.array?, doc, Json.get?_set _ object, if_neg (by decide),
      (plannedJson_base tx coins).2.2.2]
    rfl
  have text : ∀ output, (outputToJson output).text? "address" = some output.address :=
    fun output => by
    rw [Json.text?, (outputToJson_base output).1]
    rfl
  rw [ShortOutputs, outputs]
  simp only [List.forall_mem_map, text, Option.some.injEq, forall_eq']

/-- A document that the node reads has short outputs. -/
theorem shortOutputs_of_read {doc : Json} {read : Tx}
    (parsed : parseUserTx host doc height = .ok read) : ShortOutputs doc := by
  obtain ⟨_, _, _, typed, _, _, _, body⟩ := parseUserTx_parts parsed
  unfold parseBody at body
  split at body
  next inputsField outputsField _ found =>
    split at body
    · cases body
    · split at body
      · cases body
      · split at body
        · cases body
        next outputs readOutputs =>
          unfold parseOutputs at readOutputs
          split at readOutputs
          next first rest =>
            intro output listed address text
            rw [items, Json.array?, found] at listed
            have each := mapM_eq_ok.mp readOutputs
            obtain ⟨index, below, rfl⟩ := List.mem_iff_getElem.mp listed
            have passed := each.get below (each.length_eq ▸ below)
            change parseOutput height ((first :: rest).get ⟨index, below⟩) = .ok _ at passed
            change ((first :: rest).get ⟨index, below⟩).text? "address" = some address at text
            unfold parseOutput at passed
            rw [text] at passed
            split at passed
            next other value same _ =>
              obtain rfl := Option.some.inj same
              split at passed
              · cases passed
              · split at passed
                · cases passed
                next valid => exact Nat.not_lt.mp (not_or.mp (not_or.mp valid).2).1
            · cases passed
          · cases readOutputs
  · cases body

/-- A document with a type but without a name is not read. -/
theorem unread_of_unnamed {doc : Json} {kind : Text} (typed : doc.text? "type" = some kind)
    (unnamed : doc.text? "name" = none) (read : Tx) : parseUserTx host doc height ≠ .ok read := by
  intro parsed
  obtain ⟨_, _, _, _, _, _, readKind, _⟩ := parseUserTx_parts parsed
  unfold parseKind at readKind
  rw [typed] at readKind
  dsimp only at readKind
  split at readKind
  · cases readKind
  · split at readKind
    · cases readKind
    · split at readKind
      next name _ named _ =>
        rw [unnamed] at named
        cases named
      · cases readKind

end Reading

/-! ## The commands -/

theorem ensure_ok {condition : Bool} {message : Text} {result : Unit}
    (passed : ensure condition message = .ok result) : condition = true := by
  unfold ensure at passed
  split at passed
  next holds => exact holds
  · cases passed

/-- At most 200 coins are taken. -/
theorem takeCoins_length {need : UInt64} {coins chosen taken : List Coin} {sum total : UInt64}
    (few : chosen.length ≤ kMaxTxInputs)
    (took : takeCoins need coins chosen sum = .ok (taken, total)) :
    taken.length ≤ kMaxTxInputs := by
  induction coins generalizing chosen sum with
  | nil =>
      cases took
      exact few
  | cons coin rest ih =>
      rw [takeCoins] at took
      split at took
      · cases took
        exact few
      next room =>
        split at took
        · cases took
        · refine ih ?_ took
          rw [List.length_append, List.length_singleton]
          exact Nat.not_le.mp (not_or.mp room).2

theorem changeOutput_valid {change : UInt64} {address : Text} (present : address ≠ []) :
    (changeOutput change address).length ≤ 1 ∧
      ∀ output ∈ changeOutput change address, output.value ≠ 0 ∧ output.address ≠ [] := by
  unfold changeOutput
  split
  next positive =>
    refine ⟨Nat.le_refl _, List.forall_mem_singleton.mpr ⟨?_, present⟩⟩
    exact UInt64.pos_iff_ne_zero.mp positive
  · exact ⟨Nat.zero_le _, fun _ impossible => nomatch impossible⟩

theorem addressOf_ok {desk : Desk} {text address : Text}
    (found : addressOf desk text = .ok address) :
    address ≠ [] := by
  unfold addressOf at found
  obtain ⟨resolved, _, rest⟩ := bind_eq_ok.mp found
  obtain ⟨_, present, rest⟩ := bind_eq_ok.mp rest
  rw [← pure_eq_ok.mp rest]
  have filled := ensure_ok present
  rwa [Bool.not_eq_true', List.isEmpty_eq_false_iff] at filled

/-- The fixed fee reaches the minimum, and leaves something of a coin of twice its worth. -/
theorem fixedFee_enough {money : Money} {height : Nat} {worth : UInt64}
    (scaled : money.scale = 1000 ↔ piActivationHeight ≤ height)
    (covers : (if money.scale = 1000 then 2000 else 2) ≤ worth) :
    fixedFee money ≠ 0 ∧ minFeeForHeight height ≤ fixedFee money ∧ worth - fixedFee money ≠ 0 := by
  have remains : ∀ fee : UInt64, fee < worth → worth - fee ≠ 0 := by
    intro fee less none
    have order := UInt64.lt_iff_toNat_lt.mp less
    have difference := UInt64.toNat_sub_of_le _ _ (UInt64.le_of_lt less)
    rw [none, UInt64.toNat_zero] at difference
    omega
  by_cases large : money.scale = 1000
  · rw [if_pos large] at covers
    rw [fixedFee, if_pos large, minFeeForHeight, if_pos (scaled.mp large)]
    exact ⟨by decide, by decide, remains 1000 (UInt64.lt_of_lt_of_le (by decide) covers)⟩
  · rw [if_neg large] at covers
    rw [fixedFee, if_neg large, minFeeForHeight, if_neg fun late => large (scaled.mpr late)]
    exact ⟨by decide, by decide, remains 1 (UInt64.lt_of_lt_of_le (by decide) covers)⟩

section Commands

variable {desk : Desk} {height : Nat} {sent : Sent}

/-- A payment that was sent: what was asked for, and what was chosen. -/
structure Paying (desk : Desk) (src dst amount feeText : Text) (sent : Sent) where
  money : Money
  pay : UInt64
  payPi : UInt64
  fee : UInt64
  source : Text
  target : Text
  key : Key
  listed : List Coin
  reserved : List Outpoint
  chosen : List Coin
  sum : UInt64
  loaded : loadMoney desk = .ok money
  paid : parseAmount amount money = .ok (pay, payPi)
  charged : ∃ text feePi, parseFee text money = .ok (fee, feePi)
  resolvedSource : addressOf desk src = .ok source
  resolvedTarget : addressOf desk dst = .ok target
  loadedKey : desk.loadKey source = .ok key
  listedCoins : desk.listUnspent source = .ok listed
  reservedCoins : desk.reserved = .ok reserved
  fits : ¬pay > uint64Max - fee
  took : takeCoins (pay + fee) (desk.order.sort (listed.filter fun coin =>
    !reserved.contains (coin.txid, coin.vout))) [] 0 = .ok (chosen, sum)
  covers : ¬sum < pay + fee
  signed : signTx key (draftTx fee chosen
    (⟨pay, target⟩ :: changeOutput (sum - (pay + fee)) source) []) = .ok sent

theorem cmdSend_paying {src dst amount feeText : Text}
    (ran : cmdSend desk src dst amount feeText = .ok sent) :
    Nonempty (Paying desk src dst amount feeText sent) := by
  unfold cmdSend at ran
  obtain ⟨money, loaded, ran⟩ := bind_eq_ok.mp ran
  obtain ⟨⟨pay, payPi⟩, paid, ran⟩ := bind_eq_ok.mp ran
  obtain ⟨⟨fee, feePi⟩, charged, ran⟩ := bind_eq_ok.mp ran
  obtain ⟨source, resolvedSource, ran⟩ := bind_eq_ok.mp ran
  obtain ⟨target, resolvedTarget, ran⟩ := bind_eq_ok.mp ran
  obtain ⟨key, loadedKey, ran⟩ := bind_eq_ok.mp ran
  obtain ⟨listed, listedCoins, ran⟩ := bind_eq_ok.mp ran
  obtain ⟨reserved, reservedCoins, ran⟩ := bind_eq_ok.mp ran
  obtain ⟨_, _, ran⟩ := bind_eq_ok.mp ran
  obtain ⟨_, fits, ran⟩ := bind_eq_ok.mp ran
  obtain ⟨⟨chosen, sum⟩, took, ran⟩ := bind_eq_ok.mp ran
  obtain ⟨_, covers, ran⟩ := bind_eq_ok.mp ran
  exact ⟨{
    money := money
    pay := pay
    payPi := payPi
    fee := fee
    source := source
    target := target
    key := key
    listed := listed
    reserved := reserved
    chosen := chosen
    sum := sum
    loaded := loaded
    paid := paid
    charged := ⟨_, feePi, charged⟩
    resolvedSource := resolvedSource
    resolvedTarget := resolvedTarget
    loadedKey := loadedKey
    listedCoins := listedCoins
    reservedCoins := reservedCoins
    fits := by simpa using ensure_ok fits
    took := took
    covers := by simpa using ensure_ok covers
    signed := ran }⟩

namespace Paying

variable {src dst amount feeText : Text} (paying : Paying desk src dst amount feeText sent)

/-- What is left of the chosen coins. -/
def change : UInt64 := paying.sum - (paying.pay + paying.fee)

/-- The payment before it has inputs. -/
def tx : Tx :=
  { fee := paying.fee
    outputs := ⟨paying.pay, paying.target⟩ :: changeOutput paying.change paying.source }

theorem plan (scaled : Scaled desk height) : Plan height paying.tx paying.chosen := by
  obtain ⟨_, _, charged⟩ := paying.charged
  obtain ⟨fewChange, change⟩ :=
    @changeOutput_valid paying.change paying.source (addressOf_ok paying.resolvedSource)
  exact {
    version := rfl
    user := ⟨rfl, rfl⟩
    fee := parseFee_enough (loadMoney_scale scaled paying.loaded) charged
    register := ⟨rfl, rfl, rfl⟩
    plain := rfl
    flag := ⟨rfl, rfl, rfl, rfl, rfl, rfl, rfl, rfl, rfl⟩
    names := ⟨Nat.zero_le _, Nat.zero_le _⟩
    coins := takeCoins_length (Nat.zero_le _) paying.took
    few := Nat.succ_le_succ fewChange
    outputs := ⟨List.cons_ne_nil _ _, List.forall_mem_cons.mpr
      ⟨⟨(parseAmount_pos paying.paid).1, addressOf_ok paying.resolvedTarget⟩, change⟩⟩ }

end Paying

/-- What a payment is planned as. -/
theorem cmdSend_plan {src dst amount feeText : Text} (scaled : Scaled desk height)
    (ran : cmdSend desk src dst amount feeText = .ok sent) :
    ∃ tx coins key, signTx key (plannedJson tx coins) = .ok sent ∧ Plan height tx coins := by
  obtain ⟨paying⟩ := cmdSend_paying ran
  exact ⟨paying.tx, paying.chosen, paying.key, paying.signed, paying.plan scaled⟩

/-- What a registration is planned as. -/
theorem cmdRegister_plan {name ps1Text : Text} {grant : Bool} (scaled : Scaled desk height)
    (ran : cmdRegister desk name ps1Text grant = .ok sent) :
    ∃ tx coins key, signTx key (plannedJson tx coins) = .ok sent ∧ Plan height tx coins := by
  unfold cmdRegister at ran
  obtain ⟨_, valid, ran⟩ := bind_eq_ok.mp ran
  obtain ⟨_, _, ran⟩ := bind_eq_ok.mp ran
  obtain ⟨_, _, ran⟩ := bind_eq_ok.mp ran
  obtain ⟨money, loaded, ran⟩ := bind_eq_ok.mp ran
  obtain ⟨key, _, ran⟩ := bind_eq_ok.mp ran
  obtain ⟨coins, _, ran⟩ := bind_eq_ok.mp ran
  obtain ⟨named, present⟩ := Bool.and_eq_true_iff.mp (ensure_ok valid)
  rw [Bool.not_eq_true', List.isEmpty_eq_false_iff] at present
  have long := normalizePs1_long present
  have late := loadMoney_scale scaled loaded
  dsimp only at ran
  generalize needs : (if money.scale = 1000 then (2000 : UInt64) else 2) = need at ran
  split at ran
  · cases ran
  next chosen found =>
    have worth : need ≤ chosen.worth := by
      have covers := List.find?_some found
      exact of_decide_eq_true covers
    refine ⟨{ reg := true, name := name, regAddress := normalizePs1 ps1Text,
              fee := fixedFee money,
              outputs := [⟨chosen.worth - fixedFee money, normalizePs1 ps1Text⟩] },
      [chosen], key, ran, ?_⟩
    have fee : fixedFee money ≠ 0 ∧ minFeeForHeight height ≤ fixedFee money ∧
        chosen.worth - fixedFee money ≠ 0 :=
      fixedFee_enough late (needs ▸ worth)
    exact {
      version := rfl
      user := ⟨rfl, rfl⟩
      fee := ⟨fee.1, fee.2.1⟩
      register := foldRegAddress_of_long long
      plain := rfl
      flag := ⟨rfl, rfl, rfl, rfl, rfl, rfl, rfl, rfl, rfl⟩
      names := by
        simp only [validShortname, Bool.and_eq_true, decide_eq_true_eq] at named
        exact ⟨named.1.1.2, Nat.le_of_eq (isLongAddress_parts long).1⟩
      coins := (show 1 ≤ kMaxTxInputs by decide)
      few := (show 1 ≤ 2 by decide)
      outputs := ⟨List.cons_ne_nil _ _, List.forall_mem_singleton.mpr ⟨fee.2.2, present⟩⟩ }

/-- The document of a flag command has a type and no name. -/
theorem flag_unnamed {doc : Json} {fee : UInt64} {coins : List Coin} {outputs : List TxOut}
    {key : Key}
    {kind : Text} {typed : List (String × Json)} (drafted : doc = draftTx fee coins outputs typed)
    (typedRead : Json.lookup "type" typed.reverse = some (.string kind))
    (unnamed : Json.lookup "name" typed.reverse = none) (signed : signTx key doc = .ok sent) :
    sent.tx.text? "type" = some kind ∧ sent.tx.text? "name" = none := by
  obtain ⟨_, signature, _, written⟩ := signTx_ok signed
  have object : doc.isObject = true := by rw [drafted]; rfl
  have kept : ∀ key : String, key ≠ "inputs" → sent.tx.get? key = (Json.lookup key typed.reverse).or
      (Json.lookup key [("outputs", .array (outputs.map outputToJson)),
        ("inputs", .array (coins.map coinInput)), ("fee", .unsigned fee),
        ("version", .unsigned 1)]) := by
    intro key other
    rw [written, Json.get?_set _ object, if_neg other, drafted, draftTx, Json.get?_ofMembers,
      List.reverse_append, Json.lookup_append]
    rfl
  rw [Json.text?, Json.text?, kept "type" (by decide), kept "name" (by decide), typedRead, unnamed]
  exact ⟨rfl, rfl⟩

/-- A flag command sends a type and no name. -/
theorem run_flag {command : Command} (flags : command.isFlag = true)
    (ran : command.run desk = .ok sent) :
    (∃ kind, sent.tx.text? "type" = some kind) ∧ sent.tx.text? "name" = none := by
  cases command with
  | send src dst amount feeText => cases flags
  | register name ps1Text grant => cases flags
  | flagCreate id commitment awards maxText expiresText bountyText note =>
      change cmdFlagCreate desk id commitment awards maxText expiresText bountyText note = _ at ran
      unfold cmdFlagCreate at ran
      obtain ⟨money, _, ran⟩ := bind_eq_ok.mp ran
      obtain ⟨_, _, ran⟩ := bind_eq_ok.mp ran
      obtain ⟨maxClaims, _, ran⟩ := bind_eq_ok.mp ran
      obtain ⟨expires, _, ran⟩ := bind_eq_ok.mp ran
      obtain ⟨bounty, _, ran⟩ := bind_eq_ok.mp ran
      obtain ⟨_, _, ran⟩ := bind_eq_ok.mp ran
      obtain ⟨awardsAddr, _, ran⟩ := bind_eq_ok.mp ran
      obtain ⟨awardsPub, _, ran⟩ := bind_eq_ok.mp ran
      obtain ⟨_, _, ran⟩ := bind_eq_ok.mp ran
      obtain ⟨key, _, ran⟩ := bind_eq_ok.mp ran
      obtain ⟨_, _, ran⟩ := bind_eq_ok.mp ran
      obtain ⟨⟨chosen, change⟩, _, ran⟩ := bind_eq_ok.mp ran
      have sends := flag_unnamed rfl rfl rfl ran
      exact ⟨⟨_, sends.1⟩, sends.2⟩
  | flagClaim id recipientText =>
      change cmdFlagClaim desk id recipientText = _ at ran
      unfold cmdFlagClaim at ran
      obtain ⟨money, _, ran⟩ := bind_eq_ok.mp ran
      obtain ⟨_, _, ran⟩ := bind_eq_ok.mp ran
      obtain ⟨found, _, ran⟩ := bind_eq_ok.mp ran
      cases found with
      | none => cases ran
      | some flag =>
          obtain ⟨awardsPub, bounty⟩ := flag
          dsimp only at ran
          obtain ⟨_, _, ran⟩ := bind_eq_ok.mp ran
          obtain ⟨key, _, ran⟩ := bind_eq_ok.mp ran
          obtain ⟨⟨chosen, change⟩, _, ran⟩ := bind_eq_ok.mp ran
          have sends := flag_unnamed rfl rfl rfl ran
          exact ⟨⟨_, sends.1⟩, sends.2⟩

/-- **Wallet and node.** The node reads what the wallet sends as what the wallet signed
exactly when it is no flag transaction, its addresses are short and its document is small. -/
theorem wallet_agrees_iff {host : Host} {command : Command} (scaled : Scaled desk height)
    (ran : command.run desk = .ok sent) :
    (∃ read, parseUserTx host sent.tx height = .ok read ∧ signPayload read = sent.payload) ↔
      command.isFlag = false ∧ ShortOutputs sent.tx ∧ sent.tx.dumpSize ≤ kMaxTxJsonBytes := by
  constructor
  · rintro ⟨read, parsed, _⟩
    refine ⟨?_, shortOutputs_of_read parsed, (parseUserTx_ok parsed).2.2⟩
    refine Bool.eq_false_iff.mpr fun flags => ?_
    obtain ⟨⟨kind, typed⟩, unnamed⟩ := run_flag flags ran
    exact unread_of_unnamed typed unnamed read parsed
  · rintro ⟨plain, short, small⟩
    have planned : ∃ tx coins key, signTx key (plannedJson tx coins) = .ok sent ∧
        Plan height tx coins := by
      cases command with
      | send src dst amount feeText => exact cmdSend_plan scaled ran
      | register name ps1Text grant => exact cmdRegister_plan scaled ran
      | flagCreate _ _ _ _ _ _ _ => cases plain
      | flagClaim _ _ => cases plain
    obtain ⟨tx, coins, key, signed, plan⟩ := planned
    exact plan.read signed ((shortOutputs_iff signed).mp short) small

end Commands

/-! ## A desk with one coin -/

abbrev Worthier (first second : Coin) : Prop := second.worth ≤ first.worth

instance : Std.Total Worthier := ⟨fun first second => UInt64.le_total second.worth first.worth⟩

instance : IsTrans Coin Worthier := ⟨fun _ _ _ above below => UInt64.le_trans below above⟩

/-- Coins in the order of their worth. -/
def sortedCoins : CoinOrder where
  sort coins := coins.insertionSort Worthier
  sort_perm coins := List.perm_insertionSort Worthier coins
  sort_sorted coins := List.pairwise_insertionSort Worthier coins

def deskAddress : Text := "ps1".toList ++ List.replicate 64 'a'

/-- A daemon below the activation height, and a wallet with one coin of 100 old units. -/
def sampleDesk : Desk where
  info := .ofMembers [("pi_activation_height", .unsigned 3000), ("amount_scale", .unsigned 1)]
  nameLookup _ := .ok none
  listUnspent _ := .ok [⟨Digest.zero, 0, 100⟩]
  reserved := .ok []
  coinsFor _ _ := .ok [⟨Digest.zero, 0, 100⟩]
  listFlag _ := .ok none
  loadKey _ := .ok ⟨List.replicate 64 'b', fun _ => .ok (List.replicate 128 'c')⟩
  walletKey _ := .ok (List.replicate 64 'D')
  defaultAddress := deskAddress
  walletWithPubkey _ := deskAddress
  order := sortedCoins

/-- A payment of 0.005 314ST with the default fee. -/
def sampleSend : Command := .send deskAddress "bob".toList "0.005".toList []

/-- A flag for two claims of five units, with a commitment in upper case. -/
def sampleFlagCreate : Command :=
  .flagCreate "f".toList (List.replicate 64 'C') deskAddress "2".toList "0".toList "5".toList
    "note".toList

/-- The payment runs, and its document is small and has short addresses. -/
theorem sampleSend_runs : ∃ sent, sampleSend.run sampleDesk = .ok sent ∧ sent.tx.dumpSize ≤ 1000 ∧
    ShortOutputs sent.tx := by
  have evaluated : ((sampleSend.run sampleDesk).toOption.any fun sent =>
      decide (sent.tx.dumpSize ≤ 1000) && (items sent.tx "outputs").all fun output =>
        (output.text? "address").all fun address => decide (address.size ≤ 256)) = true := by
    decide +kernel
  cases ran : sampleSend.run sampleDesk with
  | error reason =>
      rw [ran] at evaluated
      cases evaluated
  | ok sent =>
      rw [ran] at evaluated
      obtain ⟨small, short⟩ := Bool.and_eq_true_iff.mp evaluated
      refine ⟨sent, rfl, of_decide_eq_true small, fun output listed address text => ?_⟩
      have fits := List.all_eq_true.mp short output listed
      rw [text] at fits
      exact of_decide_eq_true fits

theorem sampleDesk_scaled : Scaled sampleDesk 1 := by
  unfold Scaled sampleDesk
  rw [Json.unsigned?, Json.get?_ofMembers]
  rfl

theorem wallet_agrees_iff_send : ∃ sent, sampleSend.run sampleDesk = .ok sent ∧
    ∃ read, parseUserTx (Host.ofTables [] []) sent.tx 1 = .ok read ∧
      signPayload read = sent.payload := by
  obtain ⟨sent, ran, small, short⟩ := sampleSend_runs
  exact ⟨sent, ran, (wallet_agrees_iff sampleDesk_scaled ran).mpr
    ⟨rfl, short, Nat.le_trans small (by decide)⟩⟩

/-- **An unusable flag.** A flag with a valid id, commitment, key, limits and note that the
wallet sends is refused for its name. -/
theorem flag_refused :
    ∃ (desk : Desk) (id commitment awards maxText expiresText bountyText note : Text)
    (sent : Sent), Scaled desk 1 ∧ flagIdOk id = true ∧ hex64 commitment = true ∧ note.size ≤ 80 ∧
      (strtoul maxText).any (· < 4294967296) = true ∧
        (strtoul expiresText).any (· < 4294967296) = true ∧
      (Command.flagCreate id commitment awards maxText expiresText bountyText note).run desk =
        .ok sent ∧
      items sent.tx "outputs" ≠ [] ∧
      parseUserTx (Host.ofTables [] []) sent.tx 1 = .error "name invalid" := by
  have evaluated : ((sampleFlagCreate.run sampleDesk).toOption.any fun sent =>
      !(items sent.tx "outputs").isEmpty &&
        decide (parseUserTx (Host.ofTables [] []) sent.tx 1 = .error "name invalid")) = true := by
    decide +kernel
  cases ran : sampleFlagCreate.run sampleDesk with
  | error reason =>
      rw [ran] at evaluated
      cases evaluated
  | ok sent =>
      rw [ran] at evaluated
      obtain ⟨paying, refused⟩ := Bool.and_eq_true_iff.mp evaluated
      refine ⟨sampleDesk, _, _, _, _, _, _, _, sent, sampleDesk_scaled, rfl, by decide, by decide,
        by decide, by decide, ran, ?_, of_decide_eq_true refused⟩
      rwa [Bool.not_eq_true', List.isEmpty_eq_false_iff] at paying

end Wallet

end PiSecure
