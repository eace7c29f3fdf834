import PiSecure.Theory.Mining

/-! # Transactions from peers

A transaction message joins the mempool under the hash of its bytes, which is
never the id of the transaction in it.
-/

namespace PiSecure

variable {host : Host} {node : Node} {payload : Bytes}

/-- The number of inputs that `handleTx` counts in a payload. -/
def payloadInputs (host : Host) (payload : Bytes) : Nat :=
  if isJsonBody payload then
    (((host.parse payload).bind fun obj => obj.array? "inputs").map List.length).getD 0
  else 0

/-- What keeps a payload out of the mempool. -/
def Turned (host : Host) (node : Node) (payload : Bytes) : Prop :=
  node.storage.hasTransaction (host.sha256 payload) = true ∨ payload.length > kMaxTxJsonBytes ∨
    payloadInputs host payload > kMaxTxInputs

theorem handleTx_of_turned (turned : Turned host node payload) :
    handleTx host node payload = node :=
  if_pos turned

theorem handleTx_of_not (joins : ¬Turned host node payload) :
    handleTx host node payload =
      { node with storage := node.storage.addTransaction ⟨host.sha256 payload, .raw payload⟩ } :=
  if_neg joins

/-- A message adds a mempool entry under a key. -/
structure AddsEntry (host : Host) (node : Node) (payload : Bytes) (key : Digest) : Prop where
  absent : node.storage.hasTransaction key = false
  present : (handleTx host node payload).storage.hasTransaction key = true

theorem addsEntry_iff {key : Digest} :
    AddsEntry host node payload key ↔ ¬Turned host node payload ∧ key = host.sha256 payload := by
  constructor
  · rintro ⟨absent, present⟩
    by_cases turned : Turned host node payload
    · rw [handleTx_of_turned turned, absent] at present
      cases present
    · refine ⟨turned, ?_⟩
      by_contra other
      rw [handleTx_of_not turned, Storage.hasTransaction, Storage.addTransaction] at present
      dsimp only at present
      rw [AList.lookup_insert_ne other] at present
      rw [Storage.hasTransaction, present] at absent
      cases absent
  · rintro ⟨joins, rfl⟩
    refine ⟨?_, ?_⟩
    · by_contra known
      exact joins (.inl (Bool.not_eq_false _ ▸ known))
    · rw [handleTx_of_not joins, Storage.hasTransaction, Storage.addTransaction]
      dsimp only
      rw [AList.lookup_insert]
      rfl

/-- A key under which the RPC would have stored the transaction of a payload. -/
structure SentUnder (host : Host) (node : Node) (payload : Bytes) (key : Digest) : Prop where
  sent : ∃ obj tx, host.parse payload = some obj ∧
    parseUserTx host obj node.nextHeight = .ok tx ∧ key = txidOf host tx ∧
    ∀ moment, ∃ id, (rpcSendtransaction host moment node obj).2 = .ok id

/-- **Two entrances.** Everything that a message adds to the mempool is what the
RPC would have stored, exactly when the message adds nothing. Of the libraries it
is used that no JSON text starts with a `T`, and that the payload does not
collide with the canonical bytes of the transaction in it. -/
theorem addsEntry_sent_iff
    (json : ∀ bytes : Bytes, bytes.head? = some 84 → host.parse bytes = none)
    (free : ∀ obj tx, host.parse payload = some obj →
      parseUserTx host obj node.nextHeight = .ok tx →
      host.sha256 payload = host.sha256 (canonicalTx tx) → payload = canonicalTx tx) :
    (∀ key, AddsEntry host node payload key → SentUnder host node payload key) ↔
      Turned host node payload := by
  constructor
  · intro agree
    by_contra joins
    obtain ⟨obj, tx, parsed, read, same, _⟩ :=
      (agree (host.sha256 payload) (addsEntry_iff.mpr ⟨joins, rfl⟩)).sent
    have bytes := free obj tx parsed read same
    rw [bytes, json (canonicalTx tx) rfl] at parsed
    cases parsed
  · intro turned key adds
    exact absurd turned (addsEntry_iff.mp adds).1

/-- A transaction without inputs, and its bytes. -/
def plainTx : Json := spendJson 1 [] [⟨1, plainAddress⟩]

def plainPayload : Bytes := Text.bytes plainTx.dump

/-- The host that parses these bytes. -/
def plainHost : Host := Host.ofTables [] [(plainPayload, plainTx)]

private theorem parse_plain {bytes : Bytes} {obj : Json}
    (parsed : plainHost.parse bytes = some obj) :
    bytes = plainPayload ∧ obj = plainTx := by
  change Option.map Prod.snd (List.find? (fun document => document.1 == bytes)
    [(plainPayload, plainTx)]) = some obj at parsed
  rw [List.find?_singleton] at parsed
  split at parsed
  next same => exact ⟨(eq_of_beq same).symm, (Option.some.inj parsed).symm⟩
  · cases parsed

/-- A fresh node. -/
private def freshNode : Node := Node.empty fun _ => none

private theorem plain_computed :
    (match parseUserTx plainHost plainTx 1,
        (rpcSendtransaction plainHost sampleMoment freshNode plainTx).2 with
      | .ok tx, .ok id => id == tx.txid && tx.txid == txidOf plainHost tx &&
          plainHost.sha256 plainPayload != tx.txid
      | _, _ => false) = true := by
  decide +kernel

/-- The RPC accepts the transaction; its id is not the hash of the payload. -/
private theorem plain_sent : ∃ tx, parseUserTx plainHost plainTx 1 = .ok tx ∧
    (rpcSendtransaction plainHost sampleMoment freshNode plainTx).2 = .ok tx.txid ∧
    tx.txid = txidOf plainHost tx ∧ plainHost.sha256 plainPayload ≠ tx.txid := by
  have computed := plain_computed
  split at computed
  next tx id read sent =>
    simp only [Bool.and_eq_true, beq_iff_eq, bne_iff_ne] at computed
    exact ⟨tx, read, computed.1.1 ▸ sent, computed.1.2, computed.2⟩
  · cases computed

private theorem plain_joins : ¬Turned plainHost freshNode plainPayload := by
  have short : ¬plainPayload.length > kMaxTxJsonBytes := by decide +kernel
  have few : ¬payloadInputs plainHost plainPayload > kMaxTxInputs := by decide +kernel
  rintro (known | long | many)
  · cases known
  · exact short long
  · exact few many

private theorem plain_json (bytes : Bytes) (notJson : bytes.head? = some 84) :
    plainHost.parse bytes = none := by
  have start : plainPayload.head? = some 123 := by decide +kernel
  cases parsed : plainHost.parse bytes with
  | none => rfl
  | some obj =>
      rw [(parse_plain parsed).1, start] at notJson
      exact absurd notJson (by decide)

private theorem plain_free (obj : Json) (tx : Tx) (parsed : plainHost.parse plainPayload = some obj)
    (read : parseUserTx plainHost obj freshNode.nextHeight = .ok tx)
    (same : plainHost.sha256 plainPayload = plainHost.sha256 (canonicalTx tx)) :
    plainPayload = canonicalTx tx := by
  obtain ⟨plain, readPlain, _, named, differs⟩ := plain_sent
  rw [(parse_plain parsed).2] at read
  obtain rfl : plain = tx := Except.ok.inj (readPlain.symm.trans read)
  exact absurd (same.trans named.symm) differs

theorem addsEntry_sent_iff_plain :
    ¬∀ key, AddsEntry plainHost freshNode plainPayload key →
      SentUnder plainHost freshNode plainPayload key :=
  fun agree => plain_joins ((addsEntry_sent_iff plain_json plain_free).mp agree)

/-- **Not the same entrance.** A message adds a transaction that the RPC accepts,
under a key that is not its id. -/
theorem addsEntry_other_key :
    ∃ (host : Host) (payload : Bytes) (obj : Json) (tx : Tx),
      AddsEntry host (Node.empty fun _ => none) payload (host.sha256 payload) ∧
        host.parse payload = some obj ∧ parseUserTx host obj 1 = .ok tx ∧
        (rpcSendtransaction host sampleMoment (Node.empty fun _ => none) obj).2 = .ok tx.txid ∧
        tx.txid = txidOf host tx ∧ host.sha256 payload ≠ tx.txid ∧
        ¬SentUnder host (Node.empty fun _ => none) payload (host.sha256 payload) := by
  obtain ⟨tx, read, sent, named, differs⟩ := plain_sent
  have parsed : plainHost.parse plainPayload = some plainTx := by
    change Option.map Prod.snd (List.find? (fun document => document.1 == plainPayload)
      [(plainPayload, plainTx)]) = some plainTx
    rw [List.find?_singleton, if_pos (beq_self_eq_true plainPayload)]
    rfl
  refine ⟨plainHost, plainPayload, plainTx, tx, addsEntry_iff.mpr ⟨plain_joins, rfl⟩, parsed, read,
    sent, named, differs, ?_⟩
  rintro ⟨obj, other, otherParsed, otherRead, same, _⟩
  rw [(parse_plain otherParsed).2] at otherRead
  obtain rfl : tx = other := Except.ok.inj (read.symm.trans otherRead)
  exact differs (same.trans named.symm)

end PiSecure
