import PiSecure.Theory.Books
import PiSecure.Theory.Mining

/-! # Who signed a spend

What `verify_input_signatures` and `admit_register` establish about an input:
which key it names, whether that key signed the transaction, and whose output it
spends.
-/

namespace PiSecure

/-- The key that an input names belongs to an address and signed a message. -/
structure SignedFor (host : Host) (message : Bytes) (address : Text) (input : TxIn) : Prop where
  signed : ∃ key sig, decodeHex (lowerHex input.publicKeyHex) = some key ∧
    host.longAddress key = address ∧ decodeHex input.signatureHex = some sig ∧
    host.ed25519Verify key sig message = true

/-- A ps1 address is a long address once it is in lower case. -/
theorem isLongAddress_of_isPs1Payout {address : Text} (payout : isPs1Payout address = true)
    (lower : lowerAscii address = address) : isLongAddress address = true := by
  rw [isPs1Payout, Bool.and_eq_true, lower] at payout
  exact payout.2

/-! ## One input -/

section Input

variable {host : Host} {wallets : Wallets} {utxo : UtxoSet} {message : Bytes} {localKey : Bool}
  {prior : List Tx} {input : TxIn}

/-- What the signature check of an input found: the output that it spends, and a
signature of the key it names, unless the input carries none. -/
structure InputVerified (host : Host) (utxo : UtxoSet) (message : Bytes) (localKey : Bool)
    (prior : List Tx) (input : TxIn) (found : FoundOutput) : Prop where
  located : findOutpoint utxo prior input.prev input.vout 0 = some found
  signed : input.signatureHex ≠ [] → ∃ key sig,
    decodeHex (lowerHex input.publicKeyHex) = some key ∧
    (isLongAddress found.owner = true → host.longAddress key = found.owner) ∧
    decodeHex input.signatureHex = some sig ∧ host.ed25519Verify key sig message = true
  unsigned : input.signatureHex = [] → localKey = false ∧ isLongAddress found.owner = false

theorem verifyInput_ok
    (verified : verifyInput host wallets utxo message localKey prior input = .ok ()) :
    ∃ found, InputVerified host utxo message localKey prior input found := by
  unfold verifyInput at verified
  split at verified
  · cases verified
  next found located =>
    dsimp only at verified
    split at verified
    · cases verified
    · split at verified
      next missing =>
        split at verified
        · cases verified
        next old =>
          rw [not_or, Bool.not_eq_true, Bool.not_eq_true] at old
          exact ⟨found, located, fun present => absurd (List.isEmpty_iff.mp missing) present,
            fun _ => old⟩
      next present =>
        rw [List.isEmpty_iff] at present
        refine ⟨found, located, fun _ => ?_, fun missing => absurd missing present⟩
        split at verified
        · cases verified
        · split at verified
          · cases verified
          · split at verified
            · cases verified
            next key decoded =>
              split at verified
              · cases verified
              · split at verified
                · cases verified
                next owned =>
                  split at verified
                  next signature =>
                    obtain ⟨sig, read, valid⟩ := Option.any_eq_true _ _ |>.mp signature
                    refine ⟨key, sig, decoded, fun long => ?_, read, valid⟩
                    by_contra foreign
                    exact owned ⟨long, foreign⟩
                  · cases verified

/-- A verified spend of a ps1 output is signed by its key. -/
theorem InputVerified.signedFor {found : FoundOutput}
    (verified : InputVerified host utxo message localKey prior input found)
    (long : isLongAddress found.owner = true) : SignedFor host message found.owner input := by
  by_cases missing : input.signatureHex = []
  · have short := (verified.unsigned missing).2
    rw [long] at short
    cases short
  · obtain ⟨key, sig, decoded, owned, read, valid⟩ := verified.signed missing
    exact ⟨key, sig, decoded, owned long, read, valid⟩

/-- A signature is not empty. -/
theorem SignedFor.present {address : Text} (signed : SignedFor host message address input) :
    input.signatureHex ≠ [] := by
  obtain ⟨key, sig, _, _, read, valid⟩ := signed.signed
  intro missing
  rw [missing] at read
  cases read
  simp [Host.ed25519Verify] at valid

theorem verifyInputSignatures_ok {tx : Tx}
    (verified : verifyInputSignatures host wallets utxo tx localKey prior = .ok ()) :
    ∀ input ∈ tx.inputs,
      ∃ found, InputVerified host utxo (signPayload tx) localKey prior input found := by
  unfold verifyInputSignatures at verified
  split at verified
  · cases verified
  · exact fun input listed => verifyInput_ok (forM_eq_ok.mp verified input listed)

end Input

/-! ## Coins of ps1 addresses -/

namespace Accepted

variable {host : Host} (accepted : Accepted host)

/-- An input of a transaction in an accepted block spends an output of an
address. -/
structure Spends (tx : Tx) (input : TxIn) (owner : Text) : Prop where
  place : ∃ before after found, accepted.txs = before ++ tx :: after ∧
    findOutpoint accepted.node.storage.utxo (accepted.cb :: before) input.prev input.vout 0 =
      some found ∧ found.owner = owner
  listed : input ∈ tx.inputs

/-- The signature check of an input of an accepted block. -/
theorem Spends.verified {accepted : Accepted host} {tx : Tx} {input : TxIn} {owner : Text}
    (spends : accepted.Spends tx input owner) :
    ∃ prior found, found.owner = owner ∧
      InputVerified host accepted.node.storage.utxo (signPayload tx) accepted.localPolicy prior
        input
        found := by
  obtain ⟨before, after, found, split, located, owned⟩ := spends.place
  obtain ⟨_, _, _, _, _, passed⟩ := accepted.tx_passed split
  obtain ⟨other, verified⟩ := verifyInputSignatures_ok passed.signed input spends.listed
  have same := located.symm.trans verified.located
  cases same
  exact ⟨_, found, owned, verified⟩

/-- **Coins of ps1 addresses.** In an accepted block every spend of a ps1 output,
in any letter case, is signed by the key of its address exactly when every spend of a
ps1 output that is not stored in lower case carries a signature and names the
key of its address. -/
theorem ps1_signed_iff :
    (∀ tx input owner, accepted.Spends tx input owner → isPs1Payout owner = true →
      SignedFor host (signPayload tx) (lowerAscii owner) input) ↔
    ∀ tx input owner, accepted.Spends tx input owner → isPs1Payout owner = true →
      lowerAscii owner ≠ owner →
      input.signatureHex ≠ [] ∧ ∃ key, decodeHex (lowerHex input.publicKeyHex) = some key ∧
        host.longAddress key = lowerAscii owner := by
  constructor
  · intro all tx input owner spends payout _
    have signed := all tx input owner spends payout
    obtain ⟨key, _, decoded, owned, _⟩ := signed.signed
    exact ⟨signed.present, key, decoded, owned⟩
  · intro exceptions tx input owner spends payout
    obtain ⟨prior, found, owned, verified⟩ := spends.verified
    by_cases lower : lowerAscii owner = owner
    · rw [lower]
      subst owned
      exact verified.signedFor (isLongAddress_of_isPs1Payout payout lower)
    · obtain ⟨present, key, decoded, keyed⟩ := exceptions tx input owner spends payout lower
      obtain ⟨other, sig, sameKey, _, read, valid⟩ := verified.signed present
      rw [decoded] at sameKey
      cases sameKey
      exact ⟨key, sig, decoded, keyed, read, valid⟩

end Accepted

private def spendsUnsigned {host : Host} (accepted : Accepted host) : Bool :=
  match accepted.txs with
  | [tx] =>
      match tx.inputs with
      | [input] =>
          input.signatureHex.isEmpty &&
            (findOutpoint accepted.node.storage.utxo [accepted.cb] input.prev input.vout 0).any
              fun found => isPs1Payout found.owner
      | _ => false
  | _ => false

/-- A run in which a ps1 coin is spent without a signature. -/
theorem ps1_spent_unsigned :
    ∃ (host : Host) (calls : List Call) (log : List (Accepted host)) (final : Node),
      (nodeMachine host).Runs (fun _ _ => True) (Node.empty fun _ => none) calls log final ∧
      ∃ accepted ∈ log, ∃ tx input owner, accepted.Spends tx input owner ∧
        isPs1Payout owner = true ∧
        ¬SignedFor host (signPayload tx) (lowerAscii owner) input := by
  let host := Host.ofTables [] []
  have spent : (connection (Host.ofTables [] []) sampleMoment false
      (openedNode (Host.ofTables [] [])) spendingBlock.json).any spendsUnsigned = true := by
    rw [openedNode_eq]
    decide +kernel
  obtain ⟨accepted, connected, unsigned⟩ := List.any_eq_true.mp spent
  have submitted := (openedNode_run host (fun _ _ => True) trivial).snoc
    (.submitBlock sampleMoment false spendingBlock.json) trivial rfl
  refine ⟨host, _, _, _, submitted, accepted, List.mem_append_right _ connected, ?_⟩
  unfold spendsUnsigned at unsigned
  split at unsigned
  next tx only =>
    split at unsigned
    next input alone =>
      rw [Bool.and_eq_true, Option.any_eq_true] at unsigned
      obtain ⟨missing, found, located, payout⟩ := unsigned
      refine ⟨tx, input, found.owner, ⟨⟨[], [], found, only, located, rfl⟩, ?_⟩, payout, ?_⟩
      · rw [alone]
        exact List.mem_singleton_self input
      · exact fun signed => signed.present (List.isEmpty_iff.mp missing)
    · cases unsigned
  · cases unsigned

end PiSecure
