import PiSecure.General.Outcome
import PiSecure.Theory.NameTable

/-! # Parsed transactions

What the parser guarantees of a transaction, that resolving its output names
keeps it, and that the JSON of such a transaction parses back to it.
-/

namespace PiSecure

/-- The flag fields of a parsed transaction, by its kind. The fields that do not
belong to the kind have their initial values. -/
def Tx.FlagShape (tx : Tx) : Prop :=
  match tx.flagKind with
  | .none =>
      tx.flagId = [] ∧ tx.commitment = [] ∧ tx.awardsPubkey = [] ∧ tx.maxClaims = 0 ∧
        tx.expiresHeight = 0 ∧ tx.bountyUnits = 0 ∧ tx.note = [] ∧ tx.recipient = [] ∧
        tx.escrowLock = 0
  | .create =>
      flagIdOk tx.flagId = true ∧
        (hex64 tx.commitment = true ∧ lowerHex tx.commitment = tx.commitment) ∧
        (hex64 tx.awardsPubkey = true ∧ lowerHex tx.awardsPubkey = tx.awardsPubkey) ∧
        tx.note.size ≤ 80 ∧ tx.recipient = [] ∧
        PiSecure.escrowLock tx.maxClaims tx.bountyUnits = .ok tx.escrowLock
  | .claim =>
      flagIdOk tx.flagId = true ∧ tx.commitment = [] ∧ tx.awardsPubkey = [] ∧ tx.maxClaims = 0 ∧
        tx.expiresHeight = 0 ∧ tx.bountyUnits = 0 ∧ tx.note = [] ∧
        isLongAddress tx.recipient = true ∧ tx.escrowLock = 0

/-- The register fields of a parsed transaction. Every flag transaction
registers a name. -/
def Tx.RegisterShape (tx : Tx) : Prop :=
  if tx.reg then foldRegAddress tx.regAddress = tx.regAddress
  else tx.name = [] ∧ tx.regAddress = [] ∧ tx.flagKind = .none

/-- What `parse_user_tx` guarantees of the transaction it returns for a height. -/
structure Tx.Parsed (host : Host) (height : Nat) (tx : Tx) : Prop where
  version : tx.version = 1
  user : tx.coinbase = false ∧ tx.height = 0
  fee : tx.fee ≠ 0 ∧ minFeeForHeight height ≤ tx.fee
  register : tx.RegisterShape
  flag : tx.FlagShape
  inputs : tx.inputs.length ≤ kMaxTxInputs
  outputs : tx.outputs ≠ [] ∧
    ∀ output ∈ tx.outputs, output.value ≠ 0 ∧ output.address ≠ [] ∧ output.address.size ≤ 256
  txid : tx.txid = txidOf host tx

/-! ## Parsing gives parsed transactions -/

theorem size_take_add_drop (count : Nat) (text : Text) :
    Text.size (text.take count) + Text.size (text.drop count) = Text.size text := by
  rw [← Text.size_append, List.take_append_drop]

/-- A long address is in lower case already. -/
theorem isLongAddress_parts {address : Text} (long : isLongAddress address = true) :
    address.size = 67 ∧ address.take 3 = "ps1".toList ∧
      lowerHex (address.drop 3) = address.drop 3 := by
  rw [isLongAddress, Bool.and_eq_true, Bool.and_eq_true, decide_eq_true_eq, decide_eq_true_eq,
    List.all_eq_true] at long
  obtain ⟨⟨sized, front⟩, digits⟩ := long
  refine ⟨sized, front, (List.map_congr_left fun c listed => ?_).trans (List.map_id _)⟩
  have digit := digits c listed
  simp only [Bool.or_eq_true, Bool.and_eq_true, decide_eq_true_eq] at digit
  refine if_neg fun capital => ?_
  have low : 65 ≤ c.toNat := capital.1
  have high : c.toNat ≤ 70 := capital.2
  rcases digit with ⟨_, number⟩ | ⟨letter, _⟩
  · have small : c.toNat ≤ 57 := number
    omega
  · have large : 97 ≤ c.toNat := letter
    omega

theorem foldRegAddress_of_long {address : Text} (long : isLongAddress address = true) :
    foldRegAddress address = address := by
  obtain ⟨sized, front, kept⟩ := isLongAddress_parts long
  rw [foldRegAddress, if_pos ⟨sized, by rw [front]; rfl⟩, kept, ← front, List.take_append_drop]

/-- Folding a registered address twice is folding it once. -/
theorem foldRegAddress_idem (address : Text) :
    foldRegAddress (foldRegAddress address) = foldRegAddress address := by
  by_cases long : address.size = 67 ∧ lowerAscii (address.take 3) = "ps1".toList
  · have folded : foldRegAddress address = "ps1".toList ++ lowerHex (address.drop 3) := if_pos long
    have front : Text.size (address.take 3) = 3 := by
      rw [← size_lowerAscii, long.2]
      rfl
    have total := size_take_add_drop 3 address
    have size : Text.size ("ps1".toList ++ lowerHex (address.drop 3)) = 67 := by
      rw [Text.size_append, size_lowerHex]
      change 3 + _ = 67
      omega
    rw [folded, foldRegAddress, if_pos ⟨size, by rfl⟩]
    change "ps1".toList ++ lowerHex (lowerHex (address.drop 3)) = _
    rw [lowerHex_lowerHex]
  · have kept : foldRegAddress address = address := if_neg long
    rw [kept, kept]

theorem parseOutput_ok {height : Nat} {item : Json} {output : TxOut}
    (parsed : parseOutput height item = .ok output) :
    output.value ≠ 0 ∧ output.address ≠ [] ∧ output.address.size ≤ 256 := by
  unfold parseOutput at parsed
  split at parsed
  · split at parsed
    · cases parsed
    · split at parsed
      · cases parsed
      next valid =>
        cases parsed
        rw [not_or, not_or, Bool.not_eq_true, List.isEmpty_eq_false_iff] at valid
        exact ⟨valid.2.2, valid.1, Nat.not_lt.mp valid.2.1⟩
  · cases parsed

theorem parseOutputs_ok {height : Nat} {field : Json} {outputs : List TxOut}
    (parsed : parseOutputs height field = .ok outputs) :
    outputs ≠ [] ∧
      ∀ output ∈ outputs, output.value ≠ 0 ∧ output.address ≠ [] ∧ output.address.size ≤ 256 := by
  unfold parseOutputs at parsed
  split at parsed
  next first rest =>
    have each := mapM_eq_ok.mp parsed
    refine ⟨?_, ?_⟩
    · rintro rfl
      cases each
    · intro output member
      obtain ⟨item, _, read⟩ : ∃ item ∈ first :: rest, parseOutput height item = .ok output := by
        obtain ⟨index, below, rfl⟩ := List.mem_iff_getElem.mp member
        exact ⟨_, List.getElem_mem (each.length_eq ▸ below), each.get _ _⟩
      exact parseOutput_ok read
  · cases parsed

theorem parseCreateflag_ok {obj : Json} {tx flagged : Tx}
    (parsed : parseCreateflag obj tx = .ok flagged) :
    ∃ commitment awardsPubkey maxClaims expiresHeight bountyUnits note lock,
      hex64 commitment = true ∧ hex64 awardsPubkey = true ∧ Text.size note ≤ 80 ∧
      escrowLock maxClaims bountyUnits = .ok lock ∧
      flagged = { tx with
        flagKind := .create
        commitment := lowerHex commitment
        awardsPubkey := lowerHex awardsPubkey
        maxClaims := maxClaims
        expiresHeight := expiresHeight
        bountyUnits := bountyUnits
        note := note
        escrowLock := lock } := by
  unfold parseCreateflag at parsed
  split at parsed
  · split at parsed
    next valid =>
      split at parsed
      · cases parsed
      next lock locked =>
        cases parsed
        exact ⟨_, _, _, _, _, _, lock, valid.1, valid.2.1, valid.2.2, locked, rfl⟩
    · cases parsed
  · cases parsed

theorem parseClaimflag_ok {obj : Json} {tx flagged : Tx}
    (parsed : parseClaimflag obj tx = .ok flagged) :
    ∃ recipient, isLongAddress recipient = true ∧
      flagged = { tx with flagKind := .claim, recipient := recipient } := by
  unfold parseClaimflag at parsed
  split at parsed
  · split at parsed
    next long =>
      cases parsed
      exact ⟨_, long, rfl⟩
    · cases parsed
  · cases parsed

/-- The three ways in which the flag fields are read. -/
theorem parseFlag_ok {obj : Json} {kind : Text} {tx flagged : Tx}
    (parsed : parseFlag obj kind tx = .ok flagged) :
    flagged = tx ∨ ∃ flagId, flagIdOk flagId = true ∧
      (parseCreateflag obj { tx with flagId := flagId } = .ok flagged ∨
        parseClaimflag obj { tx with flagId := flagId } = .ok flagged) := by
  unfold parseFlag at parsed
  split at parsed
  · cases parsed
    exact .inl rfl
  · split at parsed
    next flagId _ =>
      split at parsed
      next valid =>
        refine .inr ⟨flagId, valid, ?_⟩
        split at parsed
        · exact .inl parsed
        · exact .inr parsed
      · cases parsed
    · cases parsed

/-- What the typed part of a transaction looks like. -/
theorem parseKind_ok {obj : Json} {fee : UInt64} {tx : Tx}
    (parsed : parseKind obj { fee := fee } = .ok tx) :
    tx.version = 1 ∧ (tx.coinbase = false ∧ tx.height = 0) ∧ tx.fee = fee ∧ tx.RegisterShape ∧
      tx.FlagShape := by
  unfold parseKind at parsed
  split at parsed
  · cases parsed
    exact ⟨rfl, ⟨rfl, rfl⟩, rfl, ⟨rfl, rfl, rfl⟩, rfl, rfl, rfl, rfl, rfl, rfl, rfl, rfl, rfl⟩
  · split at parsed
    · cases parsed
    · split at parsed
      · cases parsed
      next flagged readFlag =>
        split at parsed
        next name address _ _ =>
          cases parsed
          have folded : foldRegAddress (foldRegAddress address) = foldRegAddress address :=
            foldRegAddress_idem address
          rcases parseFlag_ok readFlag with rfl | ⟨flagId, valid, created | claimed⟩
          · exact ⟨rfl, ⟨rfl, rfl⟩, rfl, folded, rfl, rfl, rfl, rfl, rfl, rfl, rfl, rfl, rfl⟩
          · obtain ⟨commitment, awards, maxClaims, expires, bounty, note, lock, commitmentOk,
              awardsOk,
              noteOk, locked, rfl⟩ := parseCreateflag_ok created
            exact ⟨rfl, ⟨rfl, rfl⟩, rfl, folded, valid,
              ⟨(hex64_lowerHex _).trans commitmentOk, lowerHex_lowerHex _⟩,
              ⟨(hex64_lowerHex _).trans awardsOk, lowerHex_lowerHex _⟩, noteOk, rfl, locked⟩
          · obtain ⟨recipient, long, rfl⟩ := parseClaimflag_ok claimed
            exact ⟨rfl, ⟨rfl, rfl⟩, rfl, folded, valid, rfl, rfl, rfl, rfl, rfl, rfl, long, rfl⟩
        · cases parsed

/-- The body leaves the typed part alone and adds inputs, outputs and the id. -/
theorem parseBody_ok {host : Host} {obj : Json} {height : Nat} {tx full : Tx}
    (parsed : parseBody host obj height tx = .ok full) :
    ∃ inputs outputs, inputs.length ≤ kMaxTxInputs ∧
      (outputs ≠ [] ∧ ∀ output ∈ outputs,
        output.value ≠ 0 ∧ output.address ≠ [] ∧ output.address.size ≤ 256) ∧
      (canonicalTx { tx with inputs := inputs, outputs := outputs }).length ≤ kMaxTxBytes ∧
      full = { tx with
        inputs := inputs
        outputs := outputs
        txid := txidOf host { tx with inputs := inputs, outputs := outputs } } := by
  unfold parseBody at parsed
  split at parsed
  next inputsField outputsField _ _ =>
    split at parsed
    · cases parsed
    next few =>
      split at parsed
      · cases parsed
      next inputs readInputs =>
        split at parsed
        · cases parsed
        next outputs readOutputs =>
          dsimp only at parsed
          split at parsed
          · cases parsed
          next small =>
            cases parsed
            refine ⟨inputs, outputs, ?_, parseOutputs_ok readOutputs, Nat.not_lt.mp small, rfl⟩
            unfold parseInputs at readInputs
            split at readInputs
            next items =>
              rw [← (mapM_eq_ok.mp readInputs).length_eq]
              exact Nat.not_lt.mp few
            · cases readInputs
  · cases parsed

/-- What a document that parses went through. -/
theorem parseUserTx_parts {host : Host} {obj : Json} {height : Nat} {tx : Tx}
    (parsed : parseUserTx host obj height = .ok tx) :
    obj.dumpSize ≤ kMaxTxJsonBytes ∧ ∃ feeField fee typed, obj.get? "fee" = some feeField ∧
      storedFromJsonAmount feeField height true = .ok fee ∧
      parseKind obj { fee := fee } = .ok typed ∧ parseBody host obj height typed = .ok tx := by
  unfold parseUserTx at parsed
  split at parsed
  · cases parsed
  · split at parsed
    · cases parsed
    next small =>
      split at parsed
      · cases parsed
      · split at parsed
        · cases parsed
        next feeField found =>
          split at parsed
          · cases parsed
          next fee readFee =>
            split at parsed
            · cases parsed
            next typed readKind =>
              exact ⟨Nat.not_lt.mp small, feeField, fee, typed, found, readFee, readKind, parsed⟩

/-- A transaction that parses is a parsed transaction of a bounded size. -/
theorem parseUserTx_ok {host : Host} {obj : Json} {height : Nat} {tx : Tx}
    (parsed : parseUserTx host obj height = .ok tx) :
    tx.Parsed host height ∧ (canonicalTx tx).length ≤ kMaxTxBytes ∧
      obj.dumpSize ≤ kMaxTxJsonBytes := by
  obtain ⟨small, _, fee, typed, _, readFee, readKind, readBody⟩ := parseUserTx_parts parsed
  obtain ⟨version, user, sameFee, register, flag⟩ := parseKind_ok readKind
  obtain ⟨nonzero, enough⟩ := storedFromJsonAmount_ok readFee
  obtain ⟨inputs, outputs, few, paying, bounded, rfl⟩ := parseBody_ok readBody
  refine ⟨⟨version, user, ?_, register, flag, few, paying, rfl⟩, bounded, small⟩
  change typed.fee ≠ 0 ∧ minFeeForHeight height ≤ typed.fee
  rw [sameFee]
  exact ⟨nonzero, enough rfl⟩

/-! ## Resolving output names -/

/-- A resolved output is still valid: a record of the table has a long address. -/
theorem resolveOutput_valid {names : NameTable} (sound : names.Sound) {output : TxOut}
    (valid : output.value ≠ 0 ∧ output.address ≠ [] ∧ output.address.size ≤ 256) :
    (names.resolveOutput output).value ≠ 0 ∧ (names.resolveOutput output).address ≠ [] ∧
      (names.resolveOutput output).address.size ≤ 256 := by
  unfold NameTable.resolveOutput
  split
  next rec found =>
    have long := (sound.findName found).2
    simp only [isLongAddress, Bool.and_eq_true, decide_eq_true_eq] at long
    refine ⟨valid.1, ?_, Nat.le_trans (Nat.le_of_eq long.1.1) (by decide)⟩
    intro missing
    have empty : rec.address = [] := missing
    rw [empty] at long
    exact absurd long.1.1 (by decide)
  · exact valid

/-- What resolving does: it maps the outputs and recomputes the id. -/
theorem resolveOutputNames_eq {host : Host} (names : NameTable) {tx : Tx}
    (named : tx.txid = txidOf host tx) :
    names.resolveOutputNames host tx =
      { tx with
        outputs := tx.outputs.map names.resolveOutput
        txid := txidOf host { tx with outputs := tx.outputs.map names.resolveOutput } } := by
  unfold NameTable.resolveOutputNames
  dsimp only
  split
  next same =>
    rw [same]
    cases tx
    simp only at named
    rw [← named]
  · rfl

theorem Tx.Parsed.resolve {host : Host} {height : Nat} {tx : Tx} (parsed : tx.Parsed host height)
    {names : NameTable} (sound : names.Sound) :
    (names.resolveOutputNames host tx).Parsed host height := by
  rw [resolveOutputNames_eq names parsed.txid]
  refine ⟨parsed.version, parsed.user, parsed.fee, parsed.register, parsed.flag, parsed.inputs,
    ⟨?_, ?_⟩, rfl⟩
  · rw [Ne, List.map_eq_nil_iff]
    exact parsed.outputs.1
  · intro output member
    obtain ⟨original, listed, rfl⟩ := List.mem_map.mp member
    exact resolveOutput_valid sound (parsed.outputs.2 original listed)

end PiSecure
