import PiSecure.General.JsonSize
import PiSecure.Theory.Canonical
import PiSecure.Theory.Parse

/-! # The JSON of a transaction

A parsed transaction is read back from its own JSON, at every height at which
its fee is enough: replay, mempool reload and templates see the transaction that
was accepted.
-/

namespace PiSecure

/-- The members of the JSON of a transaction. -/
def txMembers (tx : Tx) : List (String × Json) :=
  [("txid", .string (toHex tx.txid)),
    ("version", .unsigned (UInt64.ofNat tx.version)),
    ("inputs", .array (tx.inputs.map inputToJson)),
    ("outputs", .array (tx.outputs.map outputToJson)),
    ("fee", .unsigned tx.fee),
    ("spendable", .bool !tx.inputs.isEmpty),
    ("signed", .bool (!tx.inputs.isEmpty && tx.inputs.all fun input =>
      !input.signatureHex.isEmpty)),
    ("size", .unsigned (UInt64.ofNat (canonicalTx tx).length))] ++
  regMembers tx ++ flagMembers tx

theorem txToJson_get? (tx : Tx) (key : String) :
    (txToJson tx).get? key = Json.lookup key (txMembers tx).reverse :=
  Json.get?_ofMembers _ _

/-- The members that every transaction has. -/
theorem txToJson_base (tx : Tx) :
    (txToJson tx).get? "version" = some (.unsigned (UInt64.ofNat tx.version)) ∧
      (txToJson tx).get? "inputs" = some (.array (tx.inputs.map inputToJson)) ∧
      (txToJson tx).get? "outputs" = some (.array (tx.outputs.map outputToJson)) ∧
      (txToJson tx).get? "fee" = some (.unsigned tx.fee) := by
  simp only [txToJson_get?, txMembers, regMembers, flagMembers]
  rcases tx with ⟨version, coinbase, reg, height, fee, name, regAddress, kind, flagId, commitment,
    awards, maxClaims, expires, bounty, note, recipient, lock, inputs, outputs, txid⟩
  cases reg <;> cases kind <;> exact ⟨rfl, rfl, rfl, rfl⟩

deriving instance DecidableEq for Tx

/-! ## Inputs and outputs -/

theorem parseInput_inputToJson (input : TxIn) : parseInput (inputToJson input) = .ok input := by
  obtain ⟨prev, vout, signature, publicKey⟩ := input
  have vouts : vout.toUInt64.toUInt32 = vout := UInt32.toUInt32_toUInt64 vout
  have members : ∀ key, (inputToJson ⟨prev, vout, signature, publicKey⟩).get? key =
      Json.lookup key ([("prev_txid", Json.string (toHex prev)),
          ("vout", .unsigned vout.toUInt64)] ++
        (if signature.isEmpty then [] else [("signature", Json.string signature)]) ++
        (if publicKey.isEmpty then [] else [("public_key", Json.string publicKey)])).reverse :=
    fun key => Json.get?_ofMembers _ _
  unfold parseInput
  simp only [Json.text?, Json.unsigned?, members]
  cases signature <;> cases publicKey <;>
    simp [Json.lookup, Json.asText?, Json.asUnsigned?, vouts]

theorem parseInputs_inputToJson (inputs : List TxIn) :
    parseInputs (.array (inputs.map inputToJson)) = .ok inputs := by
  refine mapM_eq_ok.mpr ?_
  rw [List.forall₂_map_left_iff, List.forall₂_same]
  exact fun input _ => parseInput_inputToJson input

theorem outputToJson_base (output : TxOut) :
    (outputToJson output).get? "address" = some (.string output.address) ∧
      (outputToJson output).get? "value" = some (.unsigned output.value) := by
  rw [outputToJson, Json.get?_ofMembers, Json.get?_ofMembers]
  exact ⟨rfl, rfl⟩

theorem parseOutput_outputToJson {output : TxOut} (height : Nat)
    (valid : output.value ≠ 0 ∧ output.address ≠ [] ∧ output.address.size ≤ 256) :
    parseOutput height (outputToJson output) = .ok output := by
  obtain ⟨addressJson, valueRead⟩ := outputToJson_base output
  obtain ⟨value, address⟩ := output
  obtain ⟨nonzero, present, short⟩ := valid
  have addressRead : (outputToJson ⟨value, address⟩).text? "address" = some address := by
    rw [Json.text?, addressJson]
    rfl
  have accepted : ¬(address.isEmpty = true ∨ Text.size address > 256 ∨ value = 0) := by
    rw [List.isEmpty_iff]
    rintro (missing | long | zero)
    · exact present missing
    · exact Nat.not_lt.mpr short long
    · exact nonzero zero
  unfold parseOutput
  simp only [addressRead, valueRead,
    storedFromJsonAmount_unsigned value height false nonzero (fun impossible => nomatch impossible)]
  rw [if_neg accepted]

theorem parseOutputs_outputToJson {outputs : List TxOut} (height : Nat) (paying : outputs ≠ [])
    (valid : ∀ output ∈ outputs,
      output.value ≠ 0 ∧ output.address ≠ [] ∧ output.address.size ≤ 256) :
    parseOutputs height (.array (outputs.map outputToJson)) = .ok outputs := by
  cases outputs with
  | nil => exact absurd rfl paying
  | cons first rest =>
      change ((first :: rest).map outputToJson).mapM (parseOutput height) = _
      refine mapM_eq_ok.mpr ?_
      rw [List.forall₂_map_left_iff, List.forall₂_same]
      exact fun output member => parseOutput_outputToJson height (valid output member)

/-! ## The typed part -/

/-- The typed part of a transaction, as the parser builds it before the body. -/
def typedPart (tx : Tx) : Tx :=
  { tx with inputs := [], outputs := [], txid := Digest.zero }

/-- The members that the type of a transaction brings with it. -/
def typedKeys : List String :=
  ["type", "name", "address", "flag_id", "commitment", "awards_pubkey", "max_claims",
    "expires_height", "bounty_units", "note", "recipient"]

/-- A document with the typed members of a transaction. -/
structure Typed (doc : Json) (tx : Tx) : Prop where
  get : ∀ key ∈ typedKeys, doc.get? key = Json.lookup key (regMembers tx ++ flagMembers tx).reverse

/-- The other members do not matter. -/
theorem typed_ofMembers {base : List (String × Json)} (tx : Tx)
    (plain : ∀ key ∈ typedKeys, Json.lookup key base.reverse = none) :
    Typed (Json.ofMembers (base ++ regMembers tx ++ flagMembers tx)) tx := by
  refine ⟨fun key isTyped => ?_⟩
  rw [Json.get?_ofMembers, List.append_assoc, List.reverse_append, Json.lookup_append,
    plain key isTyped, Option.or_none]

theorem typed_txToJson (tx : Tx) : Typed (txToJson tx) tx :=
  typed_ofMembers tx <| by
    simp only [typedKeys, List.forall_mem_cons]
    exact ⟨rfl, rfl, rfl, rfl, rfl, rfl, rfl, rfl, rfl, rfl, rfl, fun _ none => nomatch none⟩

/-- The typed part is read back from any document that has it. -/
theorem parseKind_typed {host : Host} {height : Nat} {tx : Tx} {doc : Json}
    (parsed : tx.Parsed host height) (typed : Typed doc tx) :
    parseKind doc { fee := tx.fee } = .ok (typedPart tx) := by
  have members := typed.get
  simp only [typedKeys, List.forall_mem_cons] at members
  obtain ⟨type, named, addressed, flagged, committed, awarded, claimed, expiring, paying, noted,
    received, _⟩ := members
  obtain ⟨version, user, _, register, flag, _, _, _⟩ := parsed
  rcases tx with ⟨version, coinbase, reg, txHeight, fee, name, regAddress, kind, flagId, commitment,
    awards, maxClaims, expires, bounty, note, recipient, lock, inputs, outputs, txid⟩
  simp only at version user
  obtain ⟨rfl, rfl⟩ := user
  subst version
  have maxRead : maxClaims.toUInt64.toUInt32 = maxClaims := UInt32.toUInt32_toUInt64 _
  have expiresRead : expires.toUInt64.toUInt32 = expires := UInt32.toUInt32_toUInt64 _
  cases reg with
  | false =>
      obtain ⟨rfl, rfl, rfl⟩ := register
      obtain ⟨rfl, rfl, rfl, rfl, rfl, rfl, rfl, rfl, rfl⟩ := flag
      simp [parseKind, Json.text?, type, Json.lookup, regMembers, flagMembers, typedPart]
  | true =>
      have folded : foldRegAddress regAddress = regAddress := register
      cases kind with
      | none =>
          obtain ⟨rfl, rfl, rfl, rfl, rfl, rfl, rfl, rfl, rfl⟩ := flag
          simp [parseKind, parseFlag, Json.text?, type, named, addressed, Json.lookup, regMembers,
            flagMembers, Json.asText?, typedPart, folded]
      | create =>
          obtain ⟨valid, ⟨commitmentOk, commitmentLow⟩, ⟨awardsOk, awardsLow⟩, short, rfl,
            locked⟩ :=
            flag
          simp only at valid commitmentOk commitmentLow awardsOk awardsLow short locked
          simp [parseKind, parseFlag, parseCreateflag, Json.text?, Json.unsigned?, type, named,
            addressed, flagged, committed, awarded, claimed, expiring, paying, noted, Json.lookup,
            regMembers, flagMembers, Json.asText?, Json.asUnsigned?, typedPart, folded, valid,
            commitmentOk, commitmentLow, awardsOk, awardsLow, short, maxRead, expiresRead, locked]
      | claim =>
          obtain ⟨valid, rfl, rfl, rfl, rfl, rfl, rfl, long, rfl⟩ := flag
          simp only at valid long
          simp [parseKind, parseFlag, parseClaimflag, Json.text?, type, named, addressed, flagged,
            received, Json.lookup, regMembers, flagMembers, Json.asText?, typedPart, folded, valid,
            long]

/-- A document with the members of a parsed transaction is read as that transaction, when
both are within the size limits. -/
theorem parseUserTx_of_members {host : Host} {height : Nat} {tx : Tx} {doc : Json}
    {items : List Json}
    (parsed : tx.Parsed host height) (typed : Typed doc tx)
    (version : doc.get? "version" = some (.unsigned 1))
    (fee : doc.get? "fee" = some (.unsigned tx.fee))
    (inputs : doc.get? "inputs" = some (.array items))
    (read : items.mapM parseInput = .ok tx.inputs)
    (outputs : doc.get? "outputs" = some (.array (tx.outputs.map outputToJson)))
    (small : doc.dumpSize ≤ kMaxTxJsonBytes) (bounded : (canonicalTx tx).length ≤ kMaxTxBytes) :
    parseUserTx host doc height = .ok tx := by
  have isObject := Json.isObject_of_get? version
  have versionOk : (doc.unsigned? "version").map UInt64.toUInt32 = some 1 := by
    rw [Json.unsigned?, version]
    rfl
  have count : ((Json.array items).asArray?.map List.length).getD 0 ≤ kMaxTxInputs := by
    change items.length ≤ _
    rw [(mapM_eq_ok.mp read).length_eq]
    exact parsed.inputs
  have readInputs : parseInputs (.array items) = .ok tx.inputs := read
  have whole : { typedPart tx with inputs := tx.inputs, outputs := tx.outputs } =
      { tx with txid := Digest.zero } := rfl
  have sameBytes : canonicalTx { tx with txid := Digest.zero } = canonicalTx tx := rfl
  have identified : txidOf host { tx with txid := Digest.zero } = tx.txid := parsed.txid.symm
  unfold parseUserTx
  rw [if_neg (not_not.mpr isObject), if_neg (Nat.not_lt.mpr small),
    if_neg (fun wrong => wrong versionOk), fee]
  simp only [storedFromJsonAmount_unsigned tx.fee height true parsed.fee.1 (fun _ => parsed.fee.2),
    parseKind_typed parsed typed]
  unfold parseBody
  rw [inputs, outputs]
  simp only [Nat.not_lt.mpr count, ↓reduceIte, readInputs,
    parseOutputs_outputToJson height parsed.outputs.1 parsed.outputs.2, whole, sameBytes,
    identified, Nat.not_lt.mpr bounded]
  rfl

/-- **Round trip.** The JSON of a parsed transaction parses back to it, when it
is within the size limits. -/
theorem parseUserTx_txToJson {host : Host} {height : Nat} {tx : Tx}
    (parsed : tx.Parsed host height) (small : (txToJson tx).dumpSize ≤ kMaxTxJsonBytes)
    (bounded : (canonicalTx tx).length ≤ kMaxTxBytes) :
    parseUserTx host (txToJson tx) height = .ok tx := by
  obtain ⟨versionRead, inputsRead, outputsRead, feeRead⟩ := txToJson_base tx
  rw [parsed.version] at versionRead
  exact parseUserTx_of_members parsed (typed_txToJson tx) versionRead feeRead inputsRead
    (parseInputs_inputToJson tx.inputs) outputsRead small bounded

/-! ## Size -/

theorem length_sizedText (text : Text) : (sizedText text).length = 2 + text.size := by
  rw [sizedText, List.length_append, u16Bytes, length_leBytes, Text.length_bytes]

private theorem length_decodeHex {hex : Text} {bytes : Bytes}
    (decoded : decodeHex hex = some bytes) :
    2 * bytes.length = hex.length := by
  induction hex using decodeHex.induct generalizing bytes with
  | case1 =>
      cases decoded
      rfl
  | case2 high low rest upper lower others restRead highRead lowRead ih =>
      rw [decodeHex, highRead, lowRead, restRead] at decoded
      cases decoded
      have tail := ih restRead
      rw [List.length_cons, List.length_cons, List.length_cons]
      omega
  | case3 high low rest missing ih =>
      rw [decodeHex] at decoded
      split at decoded
      next upper lower others highRead lowRead restRead =>
        exact absurd restRead (missing upper lower others highRead lowRead)
      · cases decoded
  | case4 last => cases decoded

private theorem length_hex64 {hex : Text} (valid : hex64 hex = true) :
    ((decodeHex hex).getD []).length ≤ 32 := by
  rw [hex64, Bool.and_eq_true, decide_eq_true_eq] at valid
  have short := Text.length_le_size hex
  cases decoded : decodeHex hex with
  | none => exact Nat.zero_le _
  | some bytes =>
      have halves := length_decodeHex decoded
      change bytes.length ≤ 32
      omega

private theorem inputs_le_dumpSize (inputs : List TxIn) :
    (inputBytes inputs).length ≤ (Json.array (inputs.map inputToJson)).dumpSize := by
  have each : ∀ input : TxIn, 36 ≤ (inputToJson input).dumpSize := by
    intro input
    have member : (inputToJson input).get? "prev_txid" = some (.string (toHex input.prev)) := by
      rw [inputToJson, Json.get?_ofMembers]
      cases input.signatureHex <;> cases input.publicKeyHex <;> rfl
    have inside := Json.dumpSize_lt_of_get? member
    have hash := Json.dumpSize_string (toHex input.prev)
    rw [size_toHex] at hash
    omega
  have total : 36 * inputs.length ≤ ((inputs.map inputToJson).map Json.dumpSize).sum := by
    induction inputs with
    | nil => exact Nat.le_refl _
    | cons input rest ih =>
        have first := each input
        simp only [List.map_cons, List.sum_cons, List.length_cons]
        omega
  have array := Json.dumpSize_array (inputs.map inputToJson)
  rw [length_inputBytes]
  omega

private theorem outputs_le_dumpSize (outputs : List TxOut) :
    (outputBytes outputs).length ≤ (Json.array (outputs.map outputToJson)).dumpSize := by
  have each : ∀ output : TxOut, 10 + output.address.size ≤ (outputToJson output).dumpSize := by
    intro output
    have member : (outputToJson output).get? "address" = some (.string output.address) := by
      rw [outputToJson, Json.get?_ofMembers]
      rfl
    have inside := Json.sum_memberSize_le [("address", .string output.address)]
      (Json.isObject_of_get? member) (List.nodup_singleton _)
      (List.forall_mem_singleton.mpr member)
    have text := Json.dumpSize_string output.address
    have key : Text.size "address".toList = 7 := rfl
    rw [List.map_singleton, List.sum_singleton, Json.memberSize, key] at inside
    dsimp only at inside
    omega
  have total : (outputBytes outputs).length ≤
      ((outputs.map outputToJson).map Json.dumpSize).sum := by
    induction outputs with
    | nil => exact Nat.le_refl _
    | cons output rest ih =>
        have first := each output
        change ((u64Bytes output.value.toNat ++ sizedText output.address) ++
          outputBytes rest).length ≤ _
        rw [List.length_append, List.length_append, u64Bytes, length_leBytes, length_sizedText,
          List.map_cons, List.map_cons, List.sum_cons]
        omega
  have array := Json.dumpSize_array (outputs.map outputToJson)
  omega

/-- The bytes of the register suffix. -/
theorem length_regBytes (tx : Tx) :
    (regBytes tx).length = if tx.reg then 8 + tx.name.size + tx.regAddress.size else 0 := by
  unfold regBytes
  split
  · rw [List.length_append, List.length_append, Text.length_bytes, length_sizedText,
      length_sizedText]
    change 4 + _ + _ = _
    omega
  · rfl

/-- The bytes of the flag suffix. -/
private theorem length_flagBytes {tx : Tx} (flag : tx.FlagShape) :
    (flagBytes tx).length ≤
      match tx.flagKind with
      | .none => 0
      | .create => 89 + tx.flagId.size + tx.note.size
      | .claim => 9 + tx.flagId.size + tx.recipient.size := by
  have createTag : (Text.bytes "FLAG1".toList).length = 5 := rfl
  have claimTag : (Text.bytes "FLAG2".toList).length = 5 := rfl
  unfold flagBytes
  unfold Tx.FlagShape at flag
  cases kind : tx.flagKind with
  | none => exact Nat.le_refl _
  | create =>
      rw [kind] at flag
      have commitment := length_hex64 flag.2.1.1
      have awards := length_hex64 flag.2.2.1.1
      simp only [List.length_append, length_sizedText, createTag, u32Bytes, u64Bytes,
        length_leBytes]
      omega
  | claim =>
      simp only [List.length_append, length_sizedText, claimTag]
      omega

/-- The members that account for the canonical bytes of a transaction. -/
private def measured (tx : Tx) : List (String × Json) :=
  [("txid", .string (toHex tx.txid)), ("inputs", .array (tx.inputs.map inputToJson)),
    ("outputs", .array (tx.outputs.map outputToJson))] ++
  (if tx.reg then [("name", .string tx.name), ("address", .string tx.regAddress)] else []) ++
  match tx.flagKind with
  | .none => []
  | .create =>
      [("flag_id", .string tx.flagId), ("commitment", .string tx.commitment),
        ("awards_pubkey", .string tx.awardsPubkey), ("note", .string tx.note)]
  | .claim => [("flag_id", .string tx.flagId), ("recipient", .string tx.recipient)]

private theorem measured_found (tx : Tx) :
    ((measured tx).map Prod.fst).Nodup ∧
      ∀ member ∈ measured tx, (txToJson tx).get? member.1 = some member.2 := by
  simp only [txToJson_get?]
  unfold measured txMembers regMembers flagMembers
  rcases tx with ⟨version, coinbase, reg, height, fee, name, regAddress, kind, flagId, commitment,
    awards, maxClaims, expires, bounty, note, recipient, lock, inputs, outputs, txid⟩
  cases reg <;> cases kind <;> constructor
  all_goals first
    | simp only [↓reduceIte, List.append_nil, List.cons_append, List.nil_append, List.map_cons,
        List.map_nil, Bool.false_eq_true]
      decide
    | repeat' first
        | exact List.forall_mem_nil _
        | refine List.forall_mem_cons.mpr ⟨rfl, ?_⟩

theorem length_canonicalTx (tx : Tx) :
    (canonicalTx tx).length = 28 + (inputBytes tx.inputs).length +
    (outputBytes tx.outputs).length + (flagBytes tx).length + (regBytes tx).length := by
  have tag : (Text.bytes "TX1".toList).length = 3 := rfl
  simp only [canonicalTx, List.length_append, tag, u32Bytes, u64Bytes, length_leBytes,
    List.length_singleton]
  omega

/-- The canonical bytes of a parsed transaction are no longer than its JSON. -/
theorem length_canonicalTx_le {host : Host} {height : Nat} {tx : Tx}
    (parsed : tx.Parsed host height) : (canonicalTx tx).length ≤ (txToJson tx).dumpSize := by
  have head := length_canonicalTx tx
  have inputs := inputs_le_dumpSize tx.inputs
  have outputs := outputs_le_dumpSize tx.outputs
  have hash := Json.dumpSize_string (toHex tx.txid)
  rw [size_toHex] at hash
  have name := Json.dumpSize_string tx.name
  have address := Json.dumpSize_string tx.regAddress
  have flagId := Json.dumpSize_string tx.flagId
  have note := Json.dumpSize_string tx.note
  have recipient := Json.dumpSize_string tx.recipient
  have commitment := Json.dumpSize_string tx.commitment
  have awards := Json.dumpSize_string tx.awardsPubkey
  have registered := length_regBytes tx
  have flagged := length_flagBytes parsed.flag
  have register := parsed.register
  have flag := parsed.flag
  obtain ⟨distinct, found⟩ := measured_found tx
  have whole := Json.sum_memberSize_le _ rfl distinct found
  unfold Tx.RegisterShape at register
  unfold Tx.FlagShape at flag
  unfold measured at whole
  have keys : Text.size "txid".toList = 4 ∧ Text.size "inputs".toList = 6 ∧
      Text.size "outputs".toList = 7 ∧ Text.size "name".toList = 4 ∧
      Text.size "address".toList = 7 ∧ Text.size "flag_id".toList = 7 ∧
      Text.size "commitment".toList = 10 ∧ Text.size "awards_pubkey".toList = 13 ∧
      Text.size "note".toList = 4 ∧ Text.size "recipient".toList = 9 := by
    exact ⟨rfl, rfl, rfl, rfl, rfl, rfl, rfl, rfl, rfl, rfl⟩
  cases kind : tx.flagKind with
  | none =>
      rw [kind] at flagged whole
      by_cases isReg : tx.reg = true
      · rw [if_pos isReg] at registered whole
        simp only [List.map_append, List.map_cons, List.map_nil, List.sum_append, List.sum_cons,
          List.sum_nil, Json.memberSize, keys] at whole
        simp only at flagged
        omega
      · rw [if_neg isReg] at registered whole
        simp only [List.map_append, List.map_cons, List.map_nil, List.sum_append, List.sum_cons,
          List.sum_nil, Json.memberSize, keys] at whole
        simp only at flagged
        omega
  | create =>
      rw [kind] at flagged whole flag
      have isReg : tx.reg = true := by
        by_contra plain
        rw [if_neg plain] at register
        rw [register.2.2] at kind
        cases kind
      have commitmentSize : Text.size tx.commitment = 64 := by
        have valid := flag.2.1.1
        rw [hex64, Bool.and_eq_true, decide_eq_true_eq] at valid
        exact valid.1
      have awardsSize : Text.size tx.awardsPubkey = 64 := by
        have valid := flag.2.2.1.1
        rw [hex64, Bool.and_eq_true, decide_eq_true_eq] at valid
        exact valid.1
      rw [if_pos isReg] at registered whole
      simp only [List.map_append, List.map_cons, List.map_nil, List.sum_append, List.sum_cons,
        List.sum_nil, Json.memberSize, keys] at whole
      simp only at flagged
      omega
  | claim =>
      rw [kind] at flagged whole
      have isReg : tx.reg = true := by
        by_contra plain
        rw [if_neg plain] at register
        rw [register.2.2] at kind
        cases kind
      rw [if_pos isReg] at registered whole
      simp only [List.map_append, List.map_cons, List.map_nil, List.sum_append, List.sum_cons,
        List.sum_nil, Json.memberSize, keys] at whole
      simp only at flagged
      omega

/-- What is left to ask of the JSON of a parsed transaction is its own size. -/
theorem parseUserTx_txToJson_of_small {host : Host} {height : Nat} {tx : Tx}
    (parsed : tx.Parsed host height) (small : (txToJson tx).dumpSize ≤ kMaxTxJsonBytes) :
    parseUserTx host (txToJson tx) height = .ok tx :=
  parseUserTx_txToJson parsed small
    (Nat.le_trans (length_canonicalTx_le parsed) (Nat.le_trans small (by decide)))

/-- Reading the JSON of a parsed transaction gives that transaction or fails
because of its size. -/
theorem parseUserTx_txToJson_eq {host : Host} {height : Nat} {tx read : Tx}
    (parsed : tx.Parsed host height) (readBack : parseUserTx host (txToJson tx) height = .ok read) :
    read = tx := by
  have small := (parseUserTx_ok readBack).2.2
  rw [parseUserTx_txToJson_of_small parsed small] at readBack
  exact (Except.ok.inj readBack).symm

end PiSecure
