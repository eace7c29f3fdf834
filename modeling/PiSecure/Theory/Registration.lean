import PiSecure.Theory.Ownership
import PiSecure.Theory.Rejection

/-! # Who binds a name

Which transactions add to the name table of a node that takes transactions and
mines: a registration that passed the checks belongs to the owner of the address.
A sent transaction without inputs passes none of them.
-/

namespace PiSecure

/-- A registration by the owner of an address: every input spends an output of the
address and is signed with its key, and a reserved name is granted. -/
structure OwnRegistration (host : Host) (node : Node) (prior : List Tx) (tx : Tx) : Prop where
  registers : tx.reg = true
  spends : tx.inputs ≠ []
  owned : ∀ input ∈ tx.inputs, ∃ found,
    findOutpoint node.storage.utxo prior input.prev input.vout 0 = some found ∧
      found.owner = tx.regAddress ∧ SignedFor host (signPayload tx) tx.regAddress input
  granted : isReservedName tx.name = true → Granted node.namesFile tx.name tx.regAddress

/-! ## The checks -/

section Checks

variable {host : Host} {node : Node} {localPolicy : Bool} {height : Nat} {prior : List Tx}
  {staged : FlagBook} {names : NameTable} {tx : Tx} {name address : Text}

/-- The inputs of a checked registration are spent by the owner of its address. -/
theorem inputs_owned (long : isLongAddress tx.regAddress = true)
    (signed : verifyInputSignatures host node.wallets node.storage.utxo tx localPolicy prior =
      .ok ())
    (owned : tx.inputs.forM (registerInput host node.storage.utxo tx.regAddress prior) = .ok ()) :
    ∀ input ∈ tx.inputs, ∃ found,
      findOutpoint node.storage.utxo prior input.prev input.vout 0 = some found ∧
        found.owner = tx.regAddress ∧ SignedFor host (signPayload tx) tx.regAddress input := by
  intro input listed
  obtain ⟨found, verified⟩ := verifyInputSignatures_ok signed input listed
  have registered := forM_eq_ok.mp owned input listed
  unfold registerInput at registered
  rw [verified.located] at registered
  dsimp only at registered
  split at registered
  · cases registered
  next owner =>
    have same : found.owner = tx.regAddress := not_not.mp owner
    exact ⟨found, verified.located, same, same ▸ verified.signedFor (same ▸ long)⟩

/-- A registration that reaches its grant is one by the owner, when there is one. -/
theorem ReachesGrant.own (reaches : ReachesGrant host node localPolicy height prior staged names tx)
    (granted : Granted node.namesFile tx.name tx.regAddress) :
    OwnRegistration host node prior tx where
  registers := reaches.reserved.1
  spends := (checkSpendable_ok.mp reaches.spendable).1
  owned := inputs_owned reaches.valid.2 reaches.signed reaches.owned
  granted _ := granted

/-- A registration that a miner's node checks is one by the owner. -/
theorem TxPassed.own {next : NameTable} {flags : FlagBook}
    (passed : TxPassed host node true height prior staged names tx next flags)
    (registers : tx.reg = true) : OwnRegistration host node prior tx := by
  have registered := passed.registered
  unfold admitRegister at registered
  rw [if_neg (not_not.mpr registers)] at registered
  split at registered
  · cases registered
  · split at registered
    · cases registered
    next long =>
      split at registered
      · cases registered
      next owned =>
        refine ⟨registers, (checkSpendable_ok.mp passed.spendable).1,
          inputs_owned (not_not.mp long) passed.signed owned, fun reserved => ?_⟩
        split at registered
        · cases registered
        · rw [if_pos ⟨reserved, rfl⟩] at registered
          split at registered
          next matched => exact granted_of_grantMatches matched
          · cases registered

/-- Checking a transaction binds at most its own name, for its owner. -/
theorem checkTx_binds
    (binds : Binds (checkTx host node localPolicy height prior staged names tx).1 name address) :
    Binds names name address ∨
      (OwnRegistration host node prior tx ∧ name = tx.name ∧ address = tx.regAddress) := by
  rcases checkTx_names host node localPolicy height prior staged names tx with
    ⟨reaches, same⟩ | ⟨_, same⟩
  · rw [same] at binds
    rcases binds.of_grantMatches with bound | ⟨granted, fresh⟩
    · exact .inl bound
    · exact .inr ⟨reaches.own granted, fresh⟩
  · exact .inl (same ▸ binds)

theorem checkPending_passed {flags : FlagBook}
    (passed : checkPending host node height prior staged tx = (names, .ok flags)) :
    TxPassed host node true height prior staged node.names tx names flags := by
  unfold checkPending at passed
  split at passed
  · cases passed
  next checked =>
    split at passed
    · cases passed
    · cases passed
      exact checkTx_ok.mp checked

/-- Checking a sent transaction binds at most its own name, for its owner. -/
theorem checkPending_binds
    (binds : Binds (checkPending host node height prior staged tx).1 name address) :
    Binds node.names name address ∨
      (OwnRegistration host node prior tx ∧ name = tx.name ∧ address = tx.regAddress) := by
  rcases checkPending_names host node height prior staged tx with ⟨reaches, same⟩ | ⟨_, same⟩
  · rw [same] at binds
    rcases binds.of_grantMatches with bound | ⟨granted, fresh⟩
    · exact .inl bound
    · exact .inr ⟨reaches.own granted, fresh⟩
  · exact .inl (same ▸ binds)

/-- Checking the transactions of a block binds at most names for their owners. -/
theorem checkTxs_binds {txs : List Tx}
    (binds : Binds (checkTxs host node localPolicy height txs prior staged names).1 name address) :
    Binds names name address ∨
      ∃ before tx after, txs = before ++ tx :: after ∧
      OwnRegistration host node (prior ++ before) tx ∧
        name = tx.name ∧ address = tx.regAddress := by
  induction txs generalizing prior staged names with
  | nil => exact .inl binds
  | cons first rest ih =>
      have start : Binds (checkTx host node localPolicy height prior staged names first).1 name
        address →
          Binds names name address ∨ ∃ before tx after, first :: rest = before ++ tx :: after ∧
            OwnRegistration host node (prior ++ before) tx ∧ name = tx.name ∧
              address = tx.regAddress := by
        intro bound
        refine (checkTx_binds bound).imp_right fun fresh => ⟨[], first, rest, rfl, ?_⟩
        rw [List.append_nil]
        exact fresh
      rw [checkTxs] at binds
      split at binds
      next next reason ended =>
        rw [ended] at start
        exact start binds
      next next flags ended =>
        rw [ended] at start
        rcases ih binds with bound | ⟨before, tx, after, rfl, own, fresh⟩
        · exact start bound
        · refine .inr ⟨first :: before, tx, after, rfl, ?_, fresh⟩
          rw [← List.singleton_append, ← List.append_assoc]
          exact own

/-- The registrations of a mined block bind at most their own names. -/
theorem confirmNames_binds {txs : List Tx}
    (binds : Binds (confirmNames true names txs) name address) :
    Binds names name address ∨
      ∃ tx ∈ txs, tx.reg = true ∧ name = tx.name ∧ address = tx.regAddress := by
  induction txs generalizing names with
  | nil => exact .inl binds
  | cons first rest ih =>
      rcases ih binds with bound | ⟨tx, member, fresh⟩
      · dsimp only at bound
        split at bound
        next registers =>
          exact bound.of_rememberOrKeep.imp_right fun fresh =>
            ⟨first, List.mem_cons_self, registers, fresh⟩
        · exact .inl bound
      · exact .inr ⟨tx, List.mem_cons_of_mem _ member, fresh⟩

end Checks

/-! ## The calls -/

/-- A transaction that a call checks, and the ones it is checked on top of. -/
inductive Offered (host : Host) (node : Node) : Call → List Tx → Tx → Prop where
  | sent {moment : Moment} {params : Json} {tx : Tx} : Offers host node params tx →
      Offered host node (.sendTransaction moment params) (mempoolTxs host moment node) tx
  | mined {moment : Moment} {localPolicy : Bool} {params : Json} {members : List (String × Json)}
      {draft : Draft} {before after : List Tx} {tx : Tx} :
      asObjectParam host params = .object members →
      checkDraft host moment localPolicy node (.object members) = .ok draft →
      draft.txs = before ++ tx :: after →
      Offered host node (.submitBlock moment localPolicy params) (draft.cb :: before) tx

/-- A call holds a registration of a name by the owner of an address. -/
def BoundBy (host : Host) (node : Node) (call : Call) (name address : Text) : Prop :=
  ∃ prior tx, Offered host node call prior tx ∧ OwnRegistration host node prior tx ∧
    name = tx.name ∧ address = tx.regAddress

/-- Sending a transaction, mining a block, and changes of files by the operator. -/
def Call.isLocal : Call → Prop
  | .sendTransaction _ _ => True
  | .getBlockTemplate _ _ => True
  | .submitBlock _ localPolicy _ => localPolicy = true
  | .editFiles _ _ => True
  | _ => False

/-- A local call that sends no registration without inputs of a name that it could
bind. -/
def bindsOwned (host : Host) (node : Node) (call : Call) : Prop :=
  call.isLocal ∧ ∀ moment params, call = .sendTransaction moment params →
    ∀ tx, Offers host node params tx → tx.inputs = [] → tx.reg = true →
      node.names.findName tx.name = none →
      ∀ names, node.names.remember tx.name tx.regAddress (nameKind tx.name) (toHex tx.txid) false ≠
        .ok names

section Calls

variable {host : Host} {node next : Node} {moment : Moment} {params : Json} {name address : Text}

/-- Admitting a transaction binds at most its own name, when it was free. -/
theorem admitTx_binds {flags : FlagBook} {tx : Tx}
    (binds : Binds (admitTx host moment node flags tx).1.names name address) :
    Binds node.names name address ∨
      (tx.reg = true ∧ node.names.findName tx.name = none ∧
        (∃ names, node.names.remember tx.name tx.regAddress (nameKind tx.name) (toHex tx.txid)
          false =
          .ok names) ∧ name = tx.name ∧ address = tx.regAddress) := by
  unfold admitTx at binds
  dsimp only at binds
  split at binds
  · exact .inl binds
  next registers =>
    split at binds
    · exact .inl binds
    next names remembered =>
      have known : node.names.remember tx.name tx.regAddress (nameKind tx.name) (toHex tx.txid)
        false =
          .ok names := remembered
      exact (Binds.of_remember known binds).imp_right fun fresh =>
        ⟨not_not.mp registers, fresh.1, ⟨names, known⟩, fresh.2⟩

/-- Sending a transaction binds at most a name for its owner, unless the transaction
is a registration without inputs. -/
theorem rpcSendtransaction_binds
    (binds : Binds (rpcSendtransaction host moment node params).1.names name address) :
    Binds node.names name address ∨
    BoundBy host node (.sendTransaction moment params) name address ∨
      ∃ tx, Offers host node params tx ∧ tx.inputs = [] ∧ tx.reg = true ∧
        node.names.findName tx.name = none ∧
        ∃ names, node.names.remember tx.name tx.regAddress (nameKind tx.name) (toHex tx.txid)
          false =
          .ok names := by
  by_cases offered : ∃ tx, Offers host node params tx
  · obtain ⟨tx, offers⟩ := offered
    rw [rpcSendtransaction_offers offers] at binds
    by_cases free : tx.inputs.isEmpty
    · rw [if_pos free] at binds
      rcases admitTx_binds binds with bound | ⟨registers, unbound, remembers, _⟩
      · exact .inl bound
      · exact .inr (.inr ⟨tx, offers, List.isEmpty_iff.mp free, registers, unbound, remembers⟩)
    · rw [if_neg free] at binds
      have looked : Binds (checkPending host node node.nextHeight (mempoolTxs host moment node)
          (stagedFlags host moment node) tx).1 name address → _ := checkPending_binds
      split at binds
      next names reason refused =>
        rw [refused] at looked
        exact (looked binds).imp_right fun fresh => .inl ⟨_, tx, .sent offers, fresh⟩
      next names flags passed =>
        rw [passed] at looked
        rcases admitTx_binds binds with bound | ⟨registers, _, _, fresh⟩
        · exact (looked bound).imp_right fun fresh => .inl ⟨_, tx, .sent offers, fresh⟩
        · exact .inr (.inl ⟨_, tx, .sent offers, (checkPending_passed passed).own registers, fresh⟩)
  · rw [rpcSendtransaction_idle moment (not_exists.mp offered)] at binds
    exact .inl binds

theorem rpcGetblocktemplate_names (moment : Moment) (node : Node) (params : Json) :
    (rpcGetblocktemplate host moment node params).1.names = node.names := by
  obtain ⟨challenges, outstanding, handed⟩ := rpcGetblocktemplate_eq host moment node params
  rw [handed]

/-- The checks of a mined block bind at most names for their owners. -/
theorem checkBlock_binds {members : List (String × Json)}
    (object : asObjectParam host params = .object members)
    (binds : Binds (checkBlock host moment true node (.object members)).1 name address) :
    Binds node.names name address ∨
    BoundBy host node (.submitBlock moment true params) name address := by
  unfold checkBlock at binds
  split at binds
  · exact .inl binds
  next draft drafted =>
    have looped : Binds (checkTxs host node true draft.fields.height draft.txs [draft.cb] node.flags
        node.names).1 name address → Binds node.names name address ∨
          BoundBy host node (.submitBlock moment true params) name address := fun bound => by
      refine (checkTxs_binds bound).imp_right ?_
      rintro ⟨before, tx, after, split, own, fresh⟩
      exact ⟨_, tx, .mined object drafted split, own, fresh⟩
    split at binds
    next names reason ended =>
      rw [ended] at looped
      exact looped binds
    next names flags ended =>
      rw [ended] at looped
      split at binds
      · exact looped binds
      · dsimp only at binds
        split at binds
        · exact looped binds
        · exact looped binds

/-- A mined block binds at most names for their owners. -/
theorem rpcSubmitblock_binds
    (binds : Binds (rpcSubmitblock host moment true node params).1.names name address) :
    Binds node.names name address ∨
    BoundBy host node (.submitBlock moment true params) name address := by
  unfold rpcSubmitblock at binds
  split at binds
  next member members object =>
    have checks : Binds (checkBlock host moment true node (.object (member :: members))).1 name
      address →
        _ := checkBlock_binds object
    split at binds
    next names refusal ended =>
      rw [ended] at checks
      exact checks binds
    next names checked ended =>
      rw [ended] at checks
      dsimp only at binds
      split at binds
      · exact checks binds
      · rw [connectBlock_names] at binds
        rcases confirmNames_binds binds with bound | ⟨tx, confirmed, registers, fresh⟩
        · exact checks bound
        · obtain ⟨before, after, split⟩ := List.append_of_mem confirmed
          have passed := checkBlock_ok.mp ended
          obtain ⟨_, _, _, _, _, own⟩ := (checkTxs_ok passed.txs).2 before tx after split
          exact .inr ⟨_, tx, .mined object (checkDraft_ok.mpr passed.drafted) split,
            own.own registers, fresh⟩
  · exact .inl binds

/-- One local call binds at most names for their owners. -/
theorem step_binds {call : Call} (fits : bindsOwned host node call)
    (stepped : stepNode host node call = some next) (binds : Binds next.names name address) :
    Binds node.names name address ∨ BoundBy host node call name address := by
  cases call with
  | sendTransaction moment params =>
      cases stepped
      rcases rpcSendtransaction_binds binds with bound | own |
        ⟨tx, offers, free, registers, unbound, names,
        remembers⟩
      · exact .inl bound
      · exact .inr own
      · exact absurd remembers (fits.2 moment params rfl tx offers free registers unbound names)
  | getBlockTemplate moment params =>
      cases stepped
      rw [rpcGetblocktemplate_names] at binds
      exact .inl binds
  | submitBlock moment localPolicy params =>
      cases stepped
      obtain rfl : localPolicy = true := fits.1
      exact rpcSubmitblock_binds binds
  | editFiles wallets namesFile =>
      cases stepped
      exact .inl binds
  | _ => exact fits.1.elim

/-- **Names and their owners.** In a run of sent transactions and mined blocks from a
node without names, in which no sent registration without inputs has a name that it
could bind, every name was bound by a registration of the owner of its address. -/
theorem names_bound_by_owner {start final : Node} {calls : List Call} {log : List (Accepted host)}
    (unnamed : start.names = [])
    (run : (nodeMachine host).Runs (bindsOwned host) start calls log final) :
    ∀ rec ∈ final.names, ∃ before call after events state, calls = before ++ call :: after ∧
      (nodeMachine host).Runs (bindsOwned host) start before events state ∧
      BoundBy host state call rec.name rec.address := by
  intro rec member
  refine Machine.Runs.caused (fun node (item : Text × Text) => Binds node.names item.1 item.2)
    (fun node call item => BoundBy host node call item.1 item.2) ?_ ?_ run (rec.name, rec.address)
    ⟨rec, member, rfl, rfl⟩
  · rintro item ⟨old, listed, _⟩
    rw [unnamed] at listed
    cases listed
  · intro state call next item fits stepped binds
    exact step_binds fits stepped binds

end Calls

/-! ## Runs that register a name -/

/-- The inputs of an offered transaction are those of its document. -/
theorem Offers.inputs_eq {host : Host} {node : Node} {params : Json} {tx : Tx}
    (offers : Offers host node params tx) (object : params.isObject = true) :
    ∃ parsed, parseUserTx host params node.nextHeight = .ok parsed ∧ tx.inputs = parsed.inputs := by
  obtain ⟨⟨members, parsed, given, parses, rfl⟩, _⟩ := offers
  cases params with
  | object all =>
      cases given
      refine ⟨parsed, parses, ?_⟩
      unfold NameTable.resolveOutputNames
      dsimp only
      split <;> rfl
  | _ => cases object

/-- A registration for the sample address, with what signs its input. -/
def aliceRegistration (signature publicKey : Bytes) : Json :=
  (((spendJson 1
    [⟨Digest.ofPrefix [1], 0, List.flatMap hexByte signature, List.flatMap hexByte publicKey⟩]
    [⟨1, sampleAddress⟩]).set "type" (.string "register".toList)).set "name"
      (.string "alice".toList)).set "address" (.string sampleAddress)

/-- The signature of the registration by the sample key. -/
def aliceSignature : Bytes :=
  [0x5b, 0x34, 0x10, 0x4f, 0x02, 0x8a, 0x5f, 0x44, 0xed, 0xdb, 0x35, 0x2b, 0x0b, 0xca, 0x38, 0x6e,
   0x5a, 0x34, 0x84, 0x7a, 0x70, 0x4c, 0x7d, 0xeb, 0xe0, 0x44, 0x90, 0x7c, 0x48, 0x43, 0x66, 0xf9,
   0x2a, 0x9f, 0x69, 0x36, 0xcc, 0x0f, 0x8e, 0xf4, 0x16, 0x54, 0x85, 0x8e, 0x77, 0x00, 0xf0, 0x97,
   0x43, 0x86, 0x44, 0xa9, 0xd9, 0x00, 0x41, 0x41, 0x90, 0x54, 0x6e, 0x17, 0x09, 0x32, 0x15, 0x00]

/-- A host that knows the signature. -/
def aliceHost : Host :=
  Host.ofTables [(samplePublicKey, aliceSignature, (aliceRegistration [] []).dump.bytes)] []

/-- A node without names, with one coin of the sample address. -/
def aliceNode : Node :=
  { Node.empty (fun _ => none) with
    storage := { Storage.empty with
      utxo := Finmap.singleton (Digest.ofPrefix [1], 0) ⟨2, sampleAddress, 1⟩ } }

def aliceCall : Call :=
  .sendTransaction sampleMoment (aliceRegistration aliceSignature samplePublicKey)

theorem names_bound_by_owner_alice :
    ∃ final, (nodeMachine aliceHost).Runs (bindsOwned aliceHost) aliceNode [aliceCall] [] final ∧
      final.names.map (fun rec => (rec.name, rec.address)) = [("alice".toList, sampleAddress)] ∧
      ∀ rec ∈ final.names, ∃ before call after events state, [aliceCall] = before ++ call :: after ∧
        (nodeMachine aliceHost).Runs (bindsOwned aliceHost) aliceNode before events state ∧
        BoundBy aliceHost state call rec.name rec.address := by
  have spends : (parseUserTx aliceHost (aliceRegistration aliceSignature samplePublicKey)
      1).toOption.all
      (fun tx => !tx.inputs.isEmpty) = true := by
    decide +kernel
  have fits : bindsOwned aliceHost aliceNode aliceCall := by
    refine ⟨trivial, ?_⟩
    rintro _ params same tx offers free
    cases same
    obtain ⟨parsed, parses, inputs⟩ := offers.inputs_eq (Json.isObject_set _ _ _)
    have read : parseUserTx aliceHost (aliceRegistration aliceSignature samplePublicKey) 1 =
        .ok parsed := parses
    rw [read, Except.toOption, Option.all_some, ← inputs, free] at spends
    cases spends
  have run : (nodeMachine aliceHost).Runs (bindsOwned aliceHost) aliceNode [aliceCall] [] _ :=
    .call .nil fits rfl
  refine ⟨_, run, ?_, names_bound_by_owner rfl run⟩
  decide +kernel

/-- A registration of the same name without inputs. -/
def freeRegistration : Json := shortRegistration.set "name" (.string "alice".toList)

/-- **A name without an owner.** A registration without inputs binds a name, and no
registration of an owner was ever sent. -/
theorem name_bound_without_owner :
    ∃ (host : Host) (calls : List Call) (log : List (Accepted host)) (final : Node),
      (nodeMachine host).Runs (fun _ call => call.isLocal) (Node.empty fun _ => none) calls log
      final ∧
      ∃ rec ∈ final.names, ¬∃ before call after events state, calls = before ++ call :: after ∧
        (nodeMachine host).Runs (fun _ call => call.isLocal) (Node.empty fun _ => none) before
        events
          state ∧
        BoundBy host state call rec.name rec.address := by
  let host := Host.ofTables [] []
  let call := Call.sendTransaction sampleMoment freeRegistration
  have bound : (rpcSendtransaction host sampleMoment (Node.empty fun _ => none)
      freeRegistration).1.names.isEmpty = false := by
    decide +kernel
  have free : (parseUserTx host freeRegistration 1).toOption.all (fun tx => tx.inputs.isEmpty) =
      true := by
    decide +kernel
  have run : (nodeMachine host).Runs (fun _ call => call.isLocal) (Node.empty fun _ => none) [call]
      [] _ := .call .nil trivial rfl
  obtain ⟨rec, member⟩ := List.exists_mem_of_ne_nil _ (List.isEmpty_eq_false_iff.mp bound)
  refine ⟨host, _, _, _, run, rec, member, ?_⟩
  rintro ⟨before, cause, after, events, state, split, reached, prior, tx, offered, own, _⟩
  obtain ⟨none, rfl⟩ : before = [] ∧ cause = .sendTransaction sampleMoment freeRegistration := by
    cases before with
    | nil => exact ⟨rfl, (List.cons.inj split).1.symm⟩
    | cons first rest =>
        exact absurd (List.cons.inj split).2.symm
          (List.append_ne_nil_of_right_ne_nil _ (List.cons_ne_nil _ _))
  obtain rfl := reached.of_nil none
  cases offered with
  | sent offers =>
      obtain ⟨parsed, parses, inputs⟩ := offers.inputs_eq (Json.isObject_set _ _ _)
      have read : parseUserTx host freeRegistration 1 = .ok parsed := parses
      rw [read, Except.toOption, Option.all_some, ← inputs, List.isEmpty_iff] at free
      exact own.spends free

end PiSecure
