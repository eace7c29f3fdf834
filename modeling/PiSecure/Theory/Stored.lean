import PiSecure.Theory.Update

/-! # The stored form of a block

What is read back from the document of an accepted block: its place in the
chain, its header and its coinbase.
-/

namespace PiSecure

/-- What the fields of a submitted block are. -/
structure FieldsRead (block : Json) (fields : SubmittedFields) : Prop where
  proof : block.object? "hw_proof" = some fields.proof
  model : fields.proof.text? "model" = some fields.model ∧ officialPiModel fields.model = true
  serial : (fields.proof.text? "serial_commitment").bind fromHex = some fields.serial ∧
    isZero fields.serial = false
  version : (block.unsigned? "version").map UInt64.toUInt32 = some 1
  height : (block.unsigned? "height").map (fun height => height.toUInt32.toNat) = some fields.height
  nonce : block.unsigned? "nonce" = some fields.nonce
  timestamp : block.unsigned? "timestamp" = some fields.timestamp
  difficulty : (block.unsigned? "difficulty").map UInt64.toUInt32 = some fields.difficulty
  prev : block.text? "prev_block_hash" = some fields.prevText
  merkle : block.text? "merkle_root" = some fields.merkleText
  hash : block.text? "hash" = some fields.hashText
  coinbase : block.object? "coinbase" = some fields.coinbase
  wallet : fields.coinbase.text? "wallet" = some fields.wallet ∧
    fields.wallet.isEmpty = false ∧ fields.wallet.size ≤ 256

theorem readFields_ok {block : Json} {fields : SubmittedFields} :
    readFields block = .ok fields ↔ FieldsRead block fields := by
  simp only [readFields, bind_eq_ok, pure_eq_ok, demand_ok, require_ok, beq_iff_eq,
    Option.filter_eq_some_iff, Bool.and_eq_true, Bool.not_eq_true', decide_eq_true_eq]
  constructor
  · rintro ⟨proof, proofRead, model, modelRead, serial, serialRead, _, version, height, heightRead,
      nonce, nonceRead, timestamp, timestampRead, difficulty, difficultyRead, prevText, prevRead,
      merkleText, merkleRead, hashText, hashRead, coinbase, coinbaseRead, wallet, walletRead, rfl⟩
    exact ⟨proofRead, modelRead, serialRead, version, by rw [heightRead]; rfl, nonceRead,
      timestampRead, by rw [difficultyRead]; rfl, prevRead, merkleRead, hashRead, coinbaseRead,
      walletRead⟩
  · intro read
    obtain ⟨height, heightRead, heightEq⟩ := Option.map_eq_some_iff.mp read.height
    obtain ⟨difficulty, difficultyRead, difficultyEq⟩ := Option.map_eq_some_iff.mp read.difficulty
    refine ⟨_, read.proof, _, read.model, _, read.serial, (), read.version, height, heightRead, _,
      read.nonce, _, read.timestamp, difficulty, difficultyRead, _, read.prev, _, read.merkle, _,
      read.hash, _, read.coinbase, _, read.wallet, ?_⟩
    cases fields
    simp only at heightEq difficultyEq
    rw [heightEq, difficultyEq]

namespace Accepted

variable {host : Host} (accepted : Accepted host)

theorem fieldsRead : FieldsRead accepted.block accepted.checked.draft.fields := by
  obtain ⟨payout, drafted⟩ := accepted.passes.drafted
  exact readFields_ok.mp drafted.fields

/-- The height of an accepted block fits in its 32-bit field. -/
theorem height_lt : accepted.height < 2 ^ 32 := by
  obtain ⟨height, _, same⟩ := Option.map_eq_some_iff.mp accepted.fieldsRead.height
  change accepted.checked.draft.fields.height < _
  rw [← same]
  exact height.toUInt32.toNat_lt

theorem block_isObject : accepted.block.isObject = true := by
  have found := accepted.fieldsRead.nonce
  obtain ⟨value, present, _⟩ := Option.bind_eq_some_iff.mp found
  exact Json.isObject_of_get? present

/-- The document of an accepted block. -/
def stored : Json := accepted.checked.stored

theorem stored_eq : accepted.stored = storedBlock accepted.block accepted.checked.draft
    accepted.checked.root accepted.hash accepted.names :=
  accepted.passes.stored

theorem stored_isObject : accepted.stored.isObject = true := by
  rw [stored_eq, storedBlock, Json.isObject_foldl_set, block_isObject]

/-- A member that the node writes into the document. -/
theorem stored_get? (key : String) (value : Json)
    (written : Json.lookup key (storedMembers accepted.checked.draft accepted.checked.root
      accepted.hash accepted.names).reverse = some value) :
    accepted.stored.get? key = some value := by
  rw [stored_eq, storedBlock, Json.get?_foldl_set _ accepted.block_isObject, written,
    Option.some_or]

theorem stored_text? (key : String) (text : Text)
    (written : Json.lookup key (storedMembers accepted.checked.draft accepted.checked.root
      accepted.hash accepted.names).reverse = some (.string text)) :
    accepted.stored.text? key = some text := by
  rw [Json.text?, stored_get? accepted _ _ written]
  rfl

/-- The block on disk that an accepted block becomes. -/
def found (index : Nat) : FoundBlock :=
  ⟨index, accepted.height, accepted.prev, accepted.hash, accepted.stored⟩

theorem toUInt32_height :
    (UInt64.ofNat accepted.height).toUInt32.toNat = accepted.height := by
  have below := accepted.height_lt
  rw [UInt64.toNat_toUInt32, UInt64.toNat_ofNat', Nat.mod_mod_of_dvd _ (by decide)]
  exact Nat.mod_eq_of_lt below

/-- Scanning finds an accepted block again. -/
theorem foundBlock_stored (index : Nat) :
    foundBlock host index (.doc accepted.stored) = some (accepted.found index) := by
  have height : (accepted.stored.get? "height").bind Json.toUInt32? =
      some (UInt64.ofNat accepted.height).toUInt32 := by
    rw [accepted.stored_get? _ (.unsigned (UInt64.ofNat accepted.height)) rfl]
    rfl
  have prev : (accepted.stored.text? "prev_block_hash").bind fromHex = some accepted.prev := by
    rw [accepted.stored_text? _ (toHex accepted.prev) rfl]
    exact fromHex_toHex _
  have hash : (accepted.stored.text? "hash").bind fromHex = some accepted.hash := by
    rw [accepted.stored_text? _ (toHex accepted.hash) rfl]
    exact fromHex_toHex _
  rw [foundBlock, Payload.parse]
  simp only [Option.bind_eq_bind, Option.bind_some, height, prev, hash]
  exact congrArg some (congrArg (fun height => (⟨index, height, _, _, _⟩ : FoundBlock))
    accepted.toUInt32_height)

/-- The header that is read back is the one that was stored. -/
theorem storedHeader_found (index : Nat) :
    storedHeader (accepted.found index) = some accepted.header := by
  have difficulty : ∀ bits : UInt32, bits.toUInt64.toUInt32 = bits := fun bits => by
    simp only [UInt32.toUInt32_toUInt64]
  simp only [storedHeader, found, Option.bind_eq_bind,
    Json.valueOr_of_get? (accepted.stored_get? "version" (.unsigned 1) rfl),
    Json.valueOr_of_get? (accepted.stored_get? "merkle_root"
      (.string (toHex accepted.checked.root)) rfl),
    Json.valueOr_of_get? (accepted.stored_get? "timestamp"
      (.unsigned accepted.checked.draft.fields.timestamp) rfl),
    Json.valueOr_of_get? (accepted.stored_get? "difficulty"
      (.unsigned accepted.checked.draft.fields.difficulty.toUInt64) rfl),
    Json.valueOr_of_get? (accepted.stored_get? "nonce"
      (.unsigned accepted.checked.draft.fields.nonce) rfl),
    Json.toUInt32?, Json.toUInt64?, Json.asText?, Option.bind_some, difficulty, fromHexInto_toHex]
  rfl

/-- The transactions in the document. -/
theorem stored_txs : (accepted.stored.array? "txs").getD [] = accepted.txs.map txToJson := by
  rw [Json.array?, accepted.stored_get? _ (.array (accepted.txs.map txToJson)) rfl]
  rfl

/-! ## The coinbase -/

theorem unitsOf_cbOutToJson (height : Nat) (out : CbOut) :
    unitsOf (cbOutToJson height out) = some out.units := by
  rw [unitsOf, Json.unsigned?, cbOutToJson, Json.get?_ofMembers]
  rfl

private theorem address_cbOutToJson (height : Nat) (out : CbOut) :
    (cbOutToJson height out).valueOr "address" Json.asText? [] = some out.address := by
  have found : (cbOutToJson height out).get? "address" = some (.string out.address) := by
    rw [cbOutToJson, Json.get?_ofMembers]
    rfl
  rw [Json.valueOr_of_get? found]
  rfl

private theorem outputCredits_cbOuts (txid : Digest) (height : Nat) {outs : List CbOut}
    (nonzero : ∀ out ∈ outs, out.units ≠ 0) (start : Nat) :
    outputCredits txid height (outs.map (cbOutToJson height)) (UInt32.ofNat start) =
      some (((outs.map fun out => (⟨out.units, out.address⟩ : TxOut)).zipIdx start).map
        fun (output, vout) =>
          ((txid, UInt32.ofNat vout), ⟨output.value, output.address, height⟩)) := by
  induction outs generalizing start with
  | nil => rfl
  | cons out rest ih =>
      rw [List.forall_mem_cons] at nonzero
      have next : UInt32.ofNat start + 1 = UInt32.ofNat (start + 1) := by
        rw [UInt32.ofNat_add]
        rfl
      simp only [List.map_cons, outputCredits, unitsOf_cbOutToJson, nonzero.1, ↓reduceIte,
        address_cbOutToJson, next, ih nonzero.2, List.zipIdx_cons]

theorem coinbaseBody_txid (wallet : Text) (height : Nat) (emission : Emission) (cb : Tx)
    (outs : List CbOut) :
    (coinbaseBody wallet height emission cb outs).text? "txid" = some (toHex cb.txid) := by
  rw [Json.text?, coinbaseBody, Json.get?_ofMembers]
  rfl

theorem coinbaseBody_outputs (wallet : Text) (height : Nat) (emission : Emission) (cb : Tx)
    (outs : List CbOut) :
    (coinbaseBody wallet height emission cb outs).array? "outputs" =
      some ((outs.filter fun out => out.units != 0).map (cbOutToJson height)) := by
  rw [Json.array?, coinbaseBody, Json.get?_ofMembers]
  rfl

/-- The outputs in the coinbase of a template or of a stored block are read as
the outputs that are not zero. -/
theorem readCbOuts_coinbaseBody {payout : Text} {outs : List CbOut}
    (addressed : ∀ out ∈ outs, out.units ≠ 0 → out.address ≠ [])
    (mined : ∀ out ∈ outs, out.role = "miner".toList → out.address = payout) (wallet : Text)
    (height : Nat) (emission : Emission) (cb : Tx) :
    readCbOuts payout (coinbaseBody wallet height emission cb outs) =
      .ok (outs.filter fun out => out.units != 0) := by
  have fields : ∀ out : CbOut,
      (cbOutToJson height out).text? "role" = some out.role ∧
        (cbOutToJson height out).text? "address" = some out.address := by
    intro out
    simp only [Json.text?, cbOutToJson, Json.get?_ofMembers]
    exact ⟨rfl, rfl⟩
  rw [readCbOuts, coinbaseBody_outputs]
  refine mapM_eq_ok.mpr ?_
  rw [List.forall₂_map_left_iff, List.forall₂_same]
  intro out listed
  obtain ⟨member, paid⟩ := List.mem_filter.mp listed
  rw [readCbOut, (fields out).1, (fields out).2, unitsOf_cbOutToJson]
  dsimp only
  rw [if_neg (by
    rw [List.isEmpty_iff]
    exact addressed out member (by simpa using paid)),
    if_neg fun foreign => foreign.2 (mined out member foreign.1)]

/-- Replay credits what the coinbase of an accepted block paid. -/
theorem coinbaseCredits_found (index : Nat) :
    coinbaseCredits (accepted.found index) =
      some (txCredits accepted.cb.txid accepted.cb.outputs accepted.height) := by
  let outs := accepted.checked.draft.cbOuts.filter fun out => out.units != 0
  have body : ∃ shown emission, accepted.stored.object? "coinbase" =
      some (coinbaseBody shown accepted.height emission accepted.cb
        accepted.checked.draft.cbOuts) := by
    refine ⟨accepted.checked.draft.shown,
      emissionFor accepted.height (feeUnits accepted.txs), ?_⟩
    rw [Json.object?, accepted.stored_get? "coinbase" _ rfl]
    rfl
  obtain ⟨shown, emission, coinbase⟩ := body
  have paid : accepted.cb.outputs = outs.map fun out => (⟨out.units, out.address⟩ : TxOut) := by
    rw [accepted.cb_eq]
    rfl
  have nonzero : ∀ out ∈ outs, out.units ≠ 0 := fun out member =>
    bne_iff_ne.mp (List.mem_filter.mp member).2
  have credited := outputCredits_cbOuts accepted.cb.txid accepted.height nonzero 0
  rw [coinbaseCredits]
  simp only [found, coinbase, coinbaseBody_txid, coinbaseBody_outputs, Option.bind_some,
    fromHex_toHex]
  rw [paid]
  exact credited

end Accepted

end PiSecure
