import PiSecure.Theory.Mining
import PiSecure.Theory.Spending

/-! # Rejected transactions

What a rejected `rpc_sendtransaction` leaves behind. The mempool file and the
flag book are written before the name is registered, and a grant is remembered
before the last checks.
-/

namespace PiSecure

section Checks

variable {host : Host} {node : Node} {localPolicy : Bool} {height : Nat} {prior : List Tx}
  {staged : FlagBook} {names : NameTable} {tx : Tx}

/-- A registration of a reserved name that passes every check up to the grant of
the name. -/
structure ReachesGrant (host : Host) (node : Node) (localPolicy : Bool) (height : Nat)
    (prior : List Tx) (staged : FlagBook) (names : NameTable) (tx : Tx) : Prop where
  reserved : tx.reg = true ∧ isReservedName tx.name = true ∧ localPolicy = true
  spendable : checkSpendable node.storage.utxo tx height prior (claimRelease tx staged prior) =
    .ok ()
  signed : verifyInputSignatures host node.wallets node.storage.utxo tx localPolicy prior = .ok ()
  valid : validShortname tx.name = true ∧ isLongAddress tx.regAddress = true
  owned : tx.inputs.forM (registerInput host node.storage.utxo tx.regAddress prior) = .ok ()
  free : ((names.findName tx.name).any fun rec => rec.address != tx.regAddress) = false

/-- The name table after `admit_register`: a grant that is looked up is
remembered. -/
theorem admitRegister_names (names : NameTable)
    (spendable : checkSpendable node.storage.utxo tx height prior (claimRelease tx staged prior) =
      .ok ())
    (signed : verifyInputSignatures host node.wallets node.storage.utxo tx localPolicy prior =
      .ok ()) :
    (ReachesGrant host node localPolicy height prior staged names tx ∧
      (admitRegister host node.namesFile node.storage.utxo tx localPolicy prior names).1 =
        (names.grantMatches node.namesFile tx.name tx.regAddress).1) ∨
    (¬ReachesGrant host node localPolicy height prior staged names tx ∧
      (admitRegister host node.namesFile node.storage.utxo tx localPolicy prior names).1 =
        names) := by
  unfold admitRegister
  split
  next plain => exact .inr ⟨fun reaches => plain reaches.reserved.1, rfl⟩
  next registers =>
    split
    next invalid => exact .inr ⟨fun reaches => invalid reaches.valid.1, rfl⟩
    next valid =>
      split
      next short => exact .inr ⟨fun reaches => short reaches.valid.2, rfl⟩
      next long =>
        split
        next foreign =>
          refine .inr ⟨fun reaches => ?_, rfl⟩
          rw [reaches.owned] at foreign
          cases foreign
        next owned =>
          split
          next taken =>
            refine .inr ⟨fun reaches => ?_, rfl⟩
            rw [reaches.free] at taken
            cases taken
          next free =>
            split
            next reserved =>
              refine .inl ⟨⟨⟨not_not.mp registers, reserved⟩, spendable, signed,
                ⟨not_not.mp valid, not_not.mp long⟩, owned, by simpa using free⟩, ?_⟩
              split
              next granted => rw [granted]
              next missing => rw [missing]
            next plain => exact .inr ⟨fun reaches => plain reaches.reserved.2, rfl⟩

/-- The name table after the checks of a transaction. -/
theorem checkTx_names (host : Host) (node : Node) (localPolicy : Bool) (height : Nat)
    (prior : List Tx) (staged : FlagBook) (names : NameTable) (tx : Tx) :
    (ReachesGrant host node localPolicy height prior staged names tx ∧
      (checkTx host node localPolicy height prior staged names tx).1 =
        (names.grantMatches node.namesFile tx.name tx.regAddress).1) ∨
    (¬ReachesGrant host node localPolicy height prior staged names tx ∧
      (checkTx host node localPolicy height prior staged names tx).1 = names) := by
  unfold checkTx
  dsimp only
  split
  next reason refused =>
    refine .inr ⟨fun reaches => ?_, rfl⟩
    rw [reaches.spendable] at refused
    cases refused
  next spendable =>
    split
    next reason refused =>
      refine .inr ⟨fun reaches => ?_, rfl⟩
      rw [reaches.signed] at refused
      cases refused
    next signed =>
      have admitted := admitRegister_names names spendable signed
      split
      next next reason refused => rwa [refused] at admitted
      next next registered =>
        rw [registered] at admitted
        split <;> exact admitted

theorem checkPending_names (host : Host) (node : Node) (height : Nat) (prior : List Tx)
    (staged : FlagBook) (tx : Tx) :
    (ReachesGrant host node true height prior staged node.names tx ∧
      (checkPending host node height prior staged tx).1 =
        (node.names.grantMatches node.namesFile tx.name tx.regAddress).1) ∨
    (¬ReachesGrant host node true height prior staged node.names tx ∧
      (checkPending host node height prior staged tx).1 = node.names) := by
  have checked := checkTx_names host node true height prior staged node.names tx
  unfold checkPending
  split
  next names reason refused => rwa [refused] at checked
  next names flags passed =>
    rw [passed] at checked
    split <;> exact checked

end Checks

/-! ## The call -/

section Call

variable {host : Host} {moment : Moment} {node : Node} {params : Json}

/-- The transaction that a call offers, when it is well formed and not pending
already. -/
structure Offers (host : Host) (node : Node) (params : Json) (tx : Tx) : Prop where
  read : ∃ members parsed, asObjectParam host params = .object members ∧
    parseUserTx host (.object members) node.nextHeight = .ok parsed ∧
    tx = node.names.resolveOutputNames host parsed
  fresh : node.storage.hasTransaction tx.txid = false

/-- The flag book with the pending transactions. -/
def stagedFlags (host : Host) (moment : Moment) (node : Node) : FlagBook :=
  stagePending node.flags (mempoolTxs host moment node) node.nextHeight

/-- An offered transaction passes every check before the mempool is written, and the
flag book that goes with it. -/
def Commits (host : Host) (moment : Moment) (node : Node) (tx : Tx) (flags : FlagBook) : Prop :=
  if tx.inputs.isEmpty then flags = stagedFlags host moment node
  else ∃ names, checkPending host node node.nextHeight (mempoolTxs host moment node)
    (stagedFlags host moment node) tx = (names, .ok flags)

/-- The parts of the node that a rejection should leave alone. -/
structure SameTrace (node next : Node) : Prop where
  mempool : next.storage.mempool = node.storage.mempool
  file : next.mempoolFile = node.mempoolFile
  flags : next.flags = node.flags
  names : next.names = node.names

/-- The mempool file with an offered transaction. -/
def fileWith (host : Host) (moment : Moment) (node : Node) (tx : Tx) : Option Json :=
  (saveMempool host moment
    { node with storage := node.storage.addTransaction (pendingEntry tx) }).mempoolFile

/-- The name of an offered transaction can be remembered once it is in the mempool. -/
def Remembers (node : Node) (tx : Tx) : Prop :=
  tx.reg = true → ∃ names, node.names.remember tx.name tx.regAddress (nameKind tx.name)
    (toHex tx.txid) false = .ok names

/-- What keeps a rejection from leaving something behind: no grant that the table does
not have is looked up, and a transaction that passes every check has a name that
can be remembered, unless the file and the book already are as they would be
written. -/
structure Traceless (host : Host) (moment : Moment) (node : Node) (tx : Tx) : Prop where
  grant : tx.inputs.isEmpty = false → ReachesGrant host node true node.nextHeight
      (mempoolTxs host moment node) (stagedFlags host moment node) node.names tx →
    (node.names.grantMatches node.namesFile tx.name tx.regAddress).1 = node.names
  commit : ∀ flags, Commits host moment node tx flags → Remembers node tx ∨
    (fileWith host moment node tx = node.mempoolFile ∧ flags = node.flags)

/-- Taking out an entry that was just put in. -/
theorem erase_insert_absent {pool : Mempool} {key : Digest} (entry : Transaction)
    (absent : key ∉ pool) : (pool.insert key entry).erase key = pool := by
  apply AList.ext
  have kept : pool.entries.kerase key = pool.entries := List.kerase_of_notMem_keys absent
  change (⟨key, entry⟩ :: pool.entries.kerase key :
    List (Sigma fun _ : Digest => Transaction)).kerase
    key = pool.entries
  rw [kept]
  exact List.kerase_cons_eq rfl

theorem notMem_of_fresh {storage : Storage} {hash : Digest}
    (fresh : storage.hasTransaction hash = false) : hash ∉ storage.mempool := by
  intro member
  rw [Storage.hasTransaction, AList.lookup_isSome.mpr member] at fresh
  cases fresh

/-- A transaction that is not admitted although it committed. -/
theorem admitTx_error {flags : FlagBook} {tx : Tx} {next : Node} {reason : String}
    (fresh : node.storage.hasTransaction tx.txid = false)
    (refused : admitTx host moment node flags tx = (next, .error reason)) :
    ¬Remembers node tx ∧ next.storage.mempool = node.storage.mempool ∧
      next.mempoolFile = fileWith host moment node tx ∧ next.flags = flags ∧
      next.names = node.names := by
  unfold admitTx at refused
  dsimp only at refused
  split at refused
  · cases refused
  next registers =>
    split at refused
    next why forgotten =>
      obtain ⟨rfl, _⟩ := Prod.mk.inj refused
      refine ⟨fun remembers => ?_, erase_insert_absent _ (notMem_of_fresh fresh), rfl, rfl, rfl⟩
      obtain ⟨names, remembered⟩ := remembers (not_not.mp registers)
      have same : Except.ok names = Except.error why := remembered.symm.trans forgotten
      cases same
    · cases refused

/-- The call on an offered transaction. -/
theorem rpcSendtransaction_offers {tx : Tx} (offers : Offers host node params tx) :
    rpcSendtransaction host moment node params =
      if tx.inputs.isEmpty then admitTx host moment node (stagedFlags host moment node) tx
      else
        match checkPending host node node.nextHeight (mempoolTxs host moment node)
            (stagedFlags host moment node) tx with
        | (names, .error reason) => ({ node with names := names }, .error reason)
        | (names, .ok flags) => admitTx host moment { node with names := names } flags tx := by
  obtain ⟨⟨members, parsed, object, parses, rfl⟩, fresh⟩ := offers
  unfold rpcSendtransaction
  rw [object]
  simp only [parses]
  rw [if_neg (by rw [fresh]; exact Bool.false_ne_true)]
  rfl

/-- A call that offers no transaction leaves the node alone. -/
theorem rpcSendtransaction_idle (moment : Moment) (none : ∀ tx, ¬Offers host node params tx) :
    (rpcSendtransaction host moment node params).1 = node := by
  unfold rpcSendtransaction
  split
  next members object =>
    split
    · rfl
    next parsed parses =>
      dsimp only
      split
      · rfl
      next fresh =>
        exact absurd ⟨⟨members, parsed, object, parses, rfl⟩, by simpa using fresh⟩
          (none (node.names.resolveOutputNames host parsed))
  · rfl

/-- **Rejected transactions.** A rejected transaction leaves the mempool, its file,
the flag book and the name table alone exactly when it looks up no grant that the
table does not have and is not rejected for its name after every check. -/
theorem rejected_traceless_iff {reason : String}
    (rejected : (rpcSendtransaction host moment node params).2 = .error reason) :
    SameTrace node (rpcSendtransaction host moment node params).1 ↔
      ∀ tx, Offers host node params tx → Traceless host moment node tx := by
  by_cases offered : ∃ tx, Offers host node params tx
  · obtain ⟨tx, offers⟩ := offered
    have only : ∀ other, Offers host node params other → other = tx := by
      intro other ⟨⟨others, parsedOther, objectOther, parsesOther, sameOther⟩, _⟩
      obtain ⟨⟨members, parsed, object, parses, same⟩, _⟩ := offers
      rw [object] at objectOther
      cases objectOther
      rw [parses] at parsesOther
      cases parsesOther
      rw [sameOther, same]
    have forTx : (∀ other, Offers host node params other → Traceless host moment node other) ↔
        Traceless host moment node tx :=
      ⟨fun all => all tx offers, fun one other offersOther => only other offersOther ▸ one⟩
    rw [forTx]
    rw [rpcSendtransaction_offers offers] at rejected ⊢
    by_cases free : tx.inputs.isEmpty
    · rw [if_pos free] at rejected ⊢
      have committed : ∀ flags, Commits host moment node tx flags ↔
          flags = stagedFlags host moment node := fun flags => by rw [Commits, if_pos free]
      rcases admitted :
        admitTx host moment node (stagedFlags host moment node) tx with ⟨next, verdict⟩
      rw [admitted] at rejected
      dsimp only at rejected ⊢
      subst verdict
      obtain ⟨forgets, mempool, file, flags, names⟩ := admitTx_error offers.fresh admitted
      constructor
      · intro same
        refine ⟨fun spends => absurd free (by rw [spends]; exact Bool.false_ne_true), ?_⟩
        intro book commits
        rw [committed] at commits
        exact .inr ⟨file.symm.trans same.file, commits.trans (flags.symm.trans same.flags)⟩
      · intro traceless
        rcases traceless.commit _ ((committed _).mpr rfl) with remembers | ⟨written, staged⟩
        · exact absurd remembers forgets
        · exact ⟨mempool, file.trans written, flags.trans staged, names⟩
    · rw [if_neg free] at rejected ⊢
      have spends : tx.inputs.isEmpty = false := by simpa using free
      have looked := checkPending_names host node node.nextHeight (mempoolTxs host moment node)
        (stagedFlags host moment node) tx
      have committed : ∀ flags, Commits host moment node tx flags ↔ ∃ names,
          checkPending host node node.nextHeight (mempoolTxs host moment node)
            (stagedFlags host moment node) tx = (names, .ok flags) :=
        fun flags => by rw [Commits, if_neg free]
      rcases checks : checkPending host node node.nextHeight (mempoolTxs host moment node)
        (stagedFlags host moment node) tx with ⟨after, verdict⟩
      simp only [checks] at rejected looked committed ⊢
      have grant_iff : after = node.names ↔
          (tx.inputs.isEmpty = false → ReachesGrant host node true node.nextHeight
            (mempoolTxs host moment node) (stagedFlags host moment node) node.names tx →
            (node.names.grantMatches node.namesFile tx.name tx.regAddress).1 = node.names) := by
        rcases looked with ⟨reaches, same⟩ | ⟨stops, same⟩
        · rw [same]
          exact ⟨fun kept _ _ => kept, fun kept => kept spends reaches⟩
        · exact ⟨fun _ _ reaches => absurd reaches stops, fun _ => same⟩
      cases verdict with
      | error why =>
          refine ⟨fun same => ⟨grant_iff.mp same.names, fun flags commits => ?_⟩,
            fun traceless => ⟨rfl, rfl, rfl, grant_iff.mpr traceless.grant⟩⟩
          obtain ⟨names, passed⟩ := (committed flags).mp commits
          cases passed
      | ok flags =>
          dsimp only at rejected ⊢
          rcases admitted : admitTx host moment { node with names := after } flags tx with
            ⟨next, verdict⟩
          rw [admitted] at rejected
          dsimp only at rejected ⊢
          subst verdict
          have fresh :
              Storage.hasTransaction ({ node with names := after } : Node).storage tx.txid =
              false := offers.fresh
          obtain ⟨forgets, mempool, file, booked, named⟩ := admitTx_error fresh admitted
          constructor
          · intro same
            refine ⟨grant_iff.mp (named.symm.trans same.names), fun book commits => ?_⟩
            obtain ⟨names, passed⟩ := (committed book).mp commits
            cases passed
            exact .inr ⟨file.symm.trans same.file, booked.symm.trans same.flags⟩
          · intro traceless
            have kept := grant_iff.mpr traceless.grant
            rcases traceless.commit flags ((committed flags).mpr ⟨after, rfl⟩) with
              remembers | ⟨written, staged⟩
            · subst kept
              exact absurd remembers forgets
            · exact ⟨mempool, file.trans written, booked.trans staged, named.trans kept⟩
  · have idle := rpcSendtransaction_idle moment (not_exists.mp offered)
    rw [idle]
    exact ⟨fun _ tx offers => absurd ⟨tx, offers⟩ offered, fun _ => ⟨rfl, rfl, rfl, rfl⟩⟩

end Call

/-- A transaction that spends a coin that is not there. -/
def lostSpend : Json := spendJson 1 [⟨openingTxid, 0, [], []⟩] [⟨1, plainAddress⟩]

theorem rejected_traceless_lost :
    (rpcSendtransaction (Host.ofTables [] []) sampleMoment (Node.empty fun _ => none)
        lostSpend).2 = .error "unknown input" ∧
      SameTrace (Node.empty fun _ => none)
        (rpcSendtransaction (Host.ofTables [] []) sampleMoment (Node.empty fun _ => none)
          lostSpend).1 := by
  let host := Host.ofTables [] []
  let node := Node.empty fun _ => none
  have rejected : (rpcSendtransaction host sampleMoment node lostSpend).2 =
      .error "unknown input" := by
    decide +kernel
  have refused : (parseUserTx host lostSpend node.nextHeight).toOption.all (fun parsed =>
      !(node.names.resolveOutputNames host parsed).reg &&
      !(node.names.resolveOutputNames host parsed).inputs.isEmpty &&
      !(checkPending host node node.nextHeight (mempoolTxs host sampleMoment node)
        (stagedFlags host sampleMoment node)
        (node.names.resolveOutputNames host parsed)).2.isOk) = true := by
    decide +kernel
  refine ⟨rejected, (rejected_traceless_iff rejected).mpr fun tx offers => ?_⟩
  obtain ⟨members, parsed, object, parses, rfl⟩ := offers.read
  cases object
  change parseUserTx host lostSpend node.nextHeight = .ok parsed at parses
  rw [parses] at refused
  simp only [Except.toOption, Option.all_some, Bool.and_eq_true, Bool.not_eq_true'] at refused
  obtain ⟨⟨plain, spends⟩, fails⟩ := refused
  refine ⟨fun _ reaches => ?_, fun flags commits => ?_⟩
  · have registers := reaches.reserved.1
    rw [plain] at registers
    cases registers
  · rw [Commits, if_neg (Bool.eq_false_iff.mp spends)] at commits
    obtain ⟨names, passed⟩ := commits
    rw [passed] at fails
    cases fails

/-- A registration without inputs, under a name of one letter. -/
def shortRegistration : Json :=
  (((spendJson 1 [] [⟨1, plainAddress⟩]).set "type" (.string "register".toList)).set "name"
    (.string ['x'])).set "address" (.string plainAddress)

/-- **A trace.** A transaction that is rejected for its name stays in the mempool file. -/
theorem rejected_trace :
    ∃ (host : Host) (moment : Moment) (params : Json),
      (rpcSendtransaction host moment (Node.empty fun _ => none) params).2 =
        .error "name invalid" ∧
      ¬SameTrace (Node.empty fun _ => none)
        (rpcSendtransaction host moment (Node.empty fun _ => none) params).1 := by
  have written : (rpcSendtransaction (Host.ofTables [] []) sampleMoment (Node.empty fun _ => none)
      shortRegistration).1.mempoolFile.isSome = true := by
    decide +kernel
  refine ⟨Host.ofTables [] [], sampleMoment, shortRegistration, ?_, fun same => ?_⟩
  · decide +kernel
  · rw [same.file] at written
    cases written

end PiSecure
