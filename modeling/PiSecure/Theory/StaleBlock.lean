import PiSecure.Model.Branches
import PiSecure.Theory.BranchChoice
import PiSecure.Theory.Stored

/-! # A stored block off the tip

The document under which a block is stored names its fields as a submitted block has to.
On a node whose tip is not its parent it is refused for that reason alone, and where the
block is already on the active chain, holding it is forgotten at once.
-/

namespace PiSecure

variable {host : Host}

/-! ## The fields of a stored document -/

/-- The name that is shown for a miner fits in its field. -/
theorem submittedMiner_short {names : NameTable} {localPolicy : Bool} {wallet shown payout : Text}
    (given : wallet.isEmpty = false ∧ wallet.size ≤ 256)
    (mined : submittedMiner names localPolicy wallet = .ok (shown, payout)) :
    shown.isEmpty = false ∧ shown.size ≤ 256 := by
  have positive : ∀ {text : Text}, 0 < text.size → text.isEmpty = false := by
    intro text nonempty
    cases text with
    | nil => exact absurd nonempty (Nat.lt_irrefl 0)
    | cons => rfl
  unfold submittedMiner at mined
  split at mined
  next miner resolved =>
    cases mined
    unfold NameTable.resolveMiner at resolved
    dsimp only at resolved
    split at resolved
    · cases resolved
    split at resolved
    next long =>
      cases resolved
      have size := long.2.2
      simp only [isLongAddress, Bool.and_eq_true, decide_eq_true_eq] at size
      exact ⟨positive (by rw [size.1.1]; decide), by rw [size.1.1]; decide⟩
    split at resolved
    · cases resolved
    split at resolved
    · cases resolved
    next rec found =>
      cases resolved
      have same : foldName rec.name = foldName wallet := by
        have matched := List.find?_some found
        exact beq_iff_eq.mp matched
      have size : rec.name.size = wallet.size := by
        have sizes := congrArg Text.size same
        rwa [foldName, foldName, size_lowerAscii, size_lowerAscii] at sizes
      refine ⟨positive ?_, size ▸ given.2⟩
      rw [size]
      cases wallet with
      | nil => cases given.1
      | cons c rest =>
          rw [Text.size_cons]
          exact Nat.lt_of_lt_of_le c.utf8Size_pos (Nat.le_add_right _ _)
  · split at mined
    · cases mined
      exact given
    split at mined
    · cases mined
    · cases mined

namespace Accepted

variable (accepted : Accepted host)

private theorem stored_text (key : String) {text : Text}
    (written : accepted.stored.get? key = some (.string text)) :
    accepted.stored.text? key = some text := by
  rw [Json.text?, written]
  rfl

private theorem stored_unsigned (key : String) {value : UInt64}
    (written : accepted.stored.get? key = some (.unsigned value)) :
    accepted.stored.unsigned? key = some value := by
  rw [Json.unsigned?, written]
  rfl

private theorem stored_object (key : String) {value : Json} (isObject : value.isObject = true)
    (written : accepted.stored.get? key = some value) :
    accepted.stored.object? key = some value := by
  rw [Json.object?, written, Option.bind_some, if_pos isObject]

/-- The coinbase in the document of an accepted block. -/
def storedCoinbase : Json :=
  let draft := accepted.checked.draft
  coinbaseBody draft.shown draft.fields.height
    (emissionFor draft.fields.height (feeUnits draft.txs)) draft.cb draft.cbOuts

/-- What is read of the document of an accepted block when it is submitted. -/
def storedFields : SubmittedFields :=
  let draft := accepted.checked.draft
  { proof := storedProof draft
    model := draft.fields.model
    serial := draft.fields.serial
    height := accepted.height
    nonce := draft.fields.nonce
    timestamp := draft.fields.timestamp
    difficulty := draft.fields.difficulty
    prevText := toHex accepted.prev
    merkleText := toHex accepted.checked.root
    hashText := toHex accepted.hash
    coinbase := accepted.storedCoinbase
    wallet := draft.shown }

/-- The document of an accepted block has the fields of a submitted block. -/
theorem stored_fieldsRead : FieldsRead accepted.stored accepted.storedFields := by
  obtain ⟨payout, drafted⟩ := accepted.passes.drafted
  have read := accepted.fieldsRead
  let draft := accepted.checked.draft
  have model : (storedProof draft).text? "model" = some draft.fields.model := by
    rw [Json.text?, storedProof, Json.get?_ofMembers]
    split <;> rfl
  have serial : (storedProof draft).text? "serial_commitment" =
      some (toHex draft.fields.serial) := by
    rw [Json.text?, storedProof, Json.get?_ofMembers]
    split <;> rfl
  have wallet : accepted.storedCoinbase.text? "wallet" = some draft.shown := by
    rw [Json.text?, storedCoinbase, coinbaseBody, Json.get?_ofMembers]
    rfl
  exact
    { proof := accepted.stored_object _ rfl (accepted.stored_get? _ _ rfl)
      model := ⟨model, read.model.2⟩
      serial := ⟨Option.bind_eq_some_iff.mpr ⟨_, serial, fromHex_toHex _⟩, read.serial.2⟩
      version := by
        rw [accepted.stored_unsigned _ (accepted.stored_get? _ _ rfl)]
        rfl
      height := by
        rw [accepted.stored_unsigned _ (accepted.stored_get? _ _ rfl)]
        exact congrArg some accepted.toUInt32_height
      nonce := accepted.stored_unsigned _ (accepted.stored_get? _ _ rfl)
      timestamp := accepted.stored_unsigned _ (accepted.stored_get? _ _ rfl)
      difficulty := by
        rw [accepted.stored_unsigned _ (accepted.stored_get? _ _ rfl), Option.map_some,
          UInt32.toUInt32_toUInt64]
        rfl
      prev := accepted.stored_text _ (accepted.stored_get? _ _ rfl)
      merkle := accepted.stored_text _ (accepted.stored_get? _ _ rfl)
      hash := accepted.stored_text _ (accepted.stored_get? _ _ rfl)
      coinbase := accepted.stored_object _ rfl (accepted.stored_get? _ _ rfl)
      wallet := ⟨wallet, submittedMiner_short read.wallet.2 drafted.miner⟩ }

/-- The document is an object with members. -/
theorem stored_filled : ∃ member members, accepted.stored = .object (member :: members) := by
  have isObject := accepted.stored_isObject
  have present : ∃ value, accepted.stored.get? "nonce" = some value :=
    ⟨_, accepted.stored_get? _ _ rfl⟩
  generalize accepted.stored = doc at isObject present
  cases doc with
  | object members =>
      cases members with
      | nil =>
          obtain ⟨value, found⟩ := present
          cases found
      | cons member members => exact ⟨member, members, rfl⟩
  | _ => cases isObject

/-! ## Off the tip -/

/-- A stored block is refused on another tip for its link, and changes nothing. -/
theorem stored_refused {node : Node} (elsewhere : expectPrev node.storage ≠ accepted.prev)
    (moment : Moment) :
    rpcSubmitblock host moment false node accepted.stored =
      (node, .refused (.reason "prev hash does not link tip")) := by
  have mined : ∃ miner, submittedMiner node.names false accepted.storedFields.wallet =
      .ok miner := by
    unfold submittedMiner
    split
    · exact ⟨_, rfl⟩
    · exact ⟨_, if_pos Bool.false_ne_true⟩
  have unlinked : checkLink node accepted.storedFields =
      .error (.reason "prev hash does not link tip") := by
    have other : (accepted.prev == expectPrev node.storage) = false :=
      beq_false_of_ne (Ne.symm elsewhere)
    have prev : accepted.storedFields.prevText = toHex accepted.prev := rfl
    rw [checkLink, prev, fromHex_toHex, Option.filter_some, other]
    rfl
  have failed : checkBlock host moment false node accepted.stored =
      (node.names, .error (.reason "prev hash does not link tip")) := by
    obtain ⟨miner, named⟩ := mined
    have drafted : checkDraft host moment false node accepted.stored =
        .error (.reason "prev hash does not link tip") := by
      rw [checkDraft, readFields_ok.mpr accepted.stored_fieldsRead]
      simp only [bind, Except.bind, named, unlinked]
    rw [checkBlock, drafted]
  obtain ⟨member, members, whole⟩ := accepted.stored_filled
  rw [whole] at failed ⊢
  unfold rpcSubmitblock
  simp only [asObjectParam, failed]

end Accepted

/-! ## Held and forgotten -/

private theorem lower_hexDigit :
    ∀ nibble < 16, lowerAsciiChar (hexDigit nibble) = hexDigit nibble := by
  decide

/-- The text of a digest is in lower case. -/
theorem lowerAscii_toHex (digest : Digest) : lowerAscii (toHex digest) = toHex digest := by
  refine (List.map_congr_left ?_).trans (List.map_id _)
  intro c member
  obtain ⟨byte, _, digit⟩ := List.mem_flatMap.mp member
  have below := byte.toNat_lt
  rcases List.mem_pair.mp digit with rfl | rfl
  · exact lower_hexDigit _ (by omega)
  · exact lower_hexDigit _ (by omega)

section Forgotten

variable {storage : Storage} {chain : List BlockHeader}

/-- Holding a block of the active chain adds nothing that stays. -/
theorem dropCanonical_note (path : Path storage.chainIndex chain) (nonempty : 0 < chain.length)
    (proper : ∀ header ∈ chain, header.hash ≠ Digest.zero) {hash : Digest}
    (active : hash ∈ chain.map BlockHeader.hash) {block : Json}
    (named : block.text? "hash" = some (toHex hash)) :
    dropCanonical (canonicalHashes storage) (noteOffTipBlock [] block) = [] := by
  have collected : hash ∈ canonicalHashes storage :=
    (path.mem_canonicalHashes nonempty hash).mpr
      ((path.canonical_iff nonempty proper hash).mpr active)
  unfold noteOffTipBlock
  split
  · rfl
  next item noted =>
    have isHash : item.hash = lowerAscii (toHex hash) := by
      simp only [notedBlock, named, Option.map_some, Option.bind_eq_bind, Option.bind_some,
        Option.bind_eq_some_iff] at noted
      obtain ⟨_, _, _, _, checked⟩ := noted
      split at checked
      · cases checked
      split at checked
      · cases checked
      · cases checked
        rfl
    have read : fromHex item.hash = some hash := by
      rw [isHash, lowerAscii_toHex]
      exact fromHex_toHex hash
    have canonical : item.among (canonicalHashes storage) = true := by
      rw [HeldBlock.among, read]
      exact List.contains_iff_mem.mpr collected
    rw [overwriteHeld]
    change dropCanonical _ [item] = []
    rw [dropCanonical, List.filter_cons_of_neg (by rw [canonical]; decide), List.filter_nil]

/-- Without held blocks that could stay there is no branch to adopt. -/
theorem bestCandidate_none {heldBlocks : List HeldBlock}
    (dropped : dropCanonical (canonicalHashes storage) heldBlocks = []) (refusedTips : List Text)
    (now : UInt64) : bestCandidate storage heldBlocks refusedTips now = none := by
  rw [bestCandidate, dropped]
  rfl

end Forgotten

end PiSecure
