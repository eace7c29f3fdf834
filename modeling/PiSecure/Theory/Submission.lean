import PiSecure.General.Outcome
import PiSecure.Model.Machine
import PiSecure.Theory.NameTable

/-! # What an accepted block passed

Each stretch of `rpc_submitblock` says here once what its success means, and
the whole call what it does to the node. Nothing after this module unfolds the
checks again.
-/

namespace PiSecure

@[simp] theorem require_ok {condition : Bool} {reason : String} {done : Unit} :
    require condition reason = .ok done ↔ condition = true := by
  cases condition
  · exact ⟨fun failed => (nomatch failed), fun impossible => (nomatch impossible)⟩
  · exact ⟨fun _ => rfl, fun _ => rfl⟩

@[simp] theorem demand_ok {α : Type} {value : Option α} {reason : String} {present : α} :
    demand value reason = .ok present ↔ value = some present := by
  cases value with
  | none => exact ⟨fun failed => (nomatch failed), fun impossible => (nomatch impossible)⟩
  | some found =>
      exact ⟨fun same => congrArg some (Except.ok.inj same),
        fun same => congrArg Except.ok (Option.some.inj same)⟩

@[simp] theorem refuse_ok {α : Type} {result : Except String α} {value : α} :
    refuse result = .ok value ↔ result = .ok value := by
  cases result with
  | error reason => exact ⟨fun failed => (nomatch failed), fun failed => (nomatch failed)⟩
  | ok found =>
      exact ⟨fun same => congrArg Except.ok (Except.ok.inj same),
        fun same => congrArg Except.ok (Except.ok.inj same)⟩

/-! ## The stretches -/

section Stretches

variable {host : Host} {moment : Moment} {localPolicy : Bool} {node : Node} {block : Json}

/-- A block links when it names the tip and the height after it. -/
theorem checkLink_ok {fields : SubmittedFields} {prev : Digest} :
    checkLink node fields = .ok prev ↔
      fromHex fields.prevText = some prev ∧ prev = expectPrev node.storage ∧
        fields.height = node.nextHeight := by
  simp only [checkLink, bind_eq_ok, pure_eq_ok, demand_ok, require_ok, Option.filter_eq_some_iff,
    beq_iff_eq]
  constructor
  · rintro ⟨found, ⟨read, same⟩, _, height, rfl⟩
    exact ⟨read, same, height⟩
  · rintro ⟨read, same, height⟩
    exact ⟨prev, ⟨read, same⟩, (), height, rfl⟩

/-- The stamp of a block: its difficulty is that of the next block, its time is
after the parent's and not too far ahead, and the coinbase names its height. -/
theorem checkStamp_ok {fields : SubmittedFields} :
    checkStamp moment node fields = .ok () ↔
      fields.difficulty = nextDifficulty node.storage ∧
      (∃ parent, parentTime node.storage = .ok parent ∧ parent < fields.timestamp) ∧
      fields.timestamp ≤ moment.now + 120 ∧
      ∃ height, fields.coinbase.valueOr "height" Json.toUInt32? 0 = some height ∧
        height.toNat = fields.height := by
  simp only [checkStamp, bind_eq_ok, require_ok, beq_iff_eq, Bool.and_eq_true, decide_eq_true_eq]
  constructor
  · rintro ⟨_, difficulty, parent, read, _, ⟨after, ahead⟩, coinbase⟩
    refine ⟨difficulty, ⟨parent, read, after⟩, ahead, ?_⟩
    cases named : fields.coinbase.valueOr "height" Json.toUInt32? 0 with
    | none =>
        rw [named] at coinbase
        cases coinbase
    | some height =>
        rw [named] at coinbase
        exact ⟨height, rfl, eq_of_beq (require_ok.mp coinbase)⟩
  · rintro ⟨difficulty, ⟨parent, read, after⟩, ahead, height, named, same⟩
    refine ⟨(), difficulty, parent, read, (), ⟨after, ahead⟩, ?_⟩
    rw [named]
    exact require_ok.mpr (beq_iff_eq.mpr same)

/-- The coinbase of a block pays something under its own id. -/
theorem checkCoinbase_ok {height : Nat} {coinbase : Json} {outs : List CbOut} {cb : Tx} :
    checkCoinbase host height coinbase outs = .ok cb ↔
      cb = coinbaseFrom host height outs ∧ cb.outputs ≠ [] ∧
        ∀ txid, coinbase.text? "txid" = some txid → txid = toHex cb.txid := by
  simp only [checkCoinbase, bind_eq_ok, pure_eq_ok, require_ok, Bool.not_eq_true',
    List.isEmpty_eq_false_iff, Option.all_eq_true, beq_iff_eq]
  constructor
  · rintro ⟨_, pays, _, named, rfl⟩
    exact ⟨rfl, pays, fun txid found => named txid found⟩
  · rintro ⟨rfl, pays, named⟩
    exact ⟨(), pays, (), fun txid found => named txid found, rfl⟩

/-- The work of a block: it commits to its ids, and its digest is the one it
claims and meets its difficulty. -/
theorem checkWork_ok {draft : Draft} {root digest : Digest} :
    checkWork host block draft = .ok (root, digest) ↔
      root = merkleRoot host draft.ids ∧ digest = draft.pihash host root ∧
      fromHex draft.fields.merkleText = some root ∧
      (5 ≤ draft.fields.height → algorithmOf block = "pihash2".toList) ∧
      fromHex draft.fields.hashText = some digest ∧
      Storage.validateBlockPow digest draft.fields.difficulty = true := by
  simp only [checkWork, bind_eq_ok, pure_eq_ok, require_ok, demand_ok, beq_iff_eq,
    Bool.or_eq_true, decide_eq_true_eq, Prod.mk.injEq]
  constructor
  · rintro ⟨_, merkle, _, algorithm, claimed, read, _, rfl, _, work, rfl, rfl⟩
    exact ⟨rfl, rfl, merkle, fun late => algorithm.resolve_left (Nat.not_lt.mpr late), read, work⟩
  · rintro ⟨rfl, rfl, merkle, algorithm, read, work⟩
    refine ⟨(), merkle, (), ?_, _, read, (), rfl, (), work, rfl, rfl⟩
    rcases Nat.lt_or_ge draft.fields.height 5 with early | late
    · exact .inl early
    · exact .inr (algorithm late)

/-- A transaction of a block is one of the items it lists, parsed and with its output names
resolved. -/
theorem mem_readTxs_items {names : NameTable} {height : Nat} {txs : List Tx}
    (read : readTxs host names height block = .ok txs) {tx : Tx} (member : tx ∈ txs) :
    ∃ items item parsed, block.get? "txs" = some (.array items) ∧ item ∈ items ∧
      parseUserTx host item height = .ok parsed ∧ tx = names.resolveOutputNames host parsed := by
  unfold readTxs at read
  split at read
  · rw [← Except.ok.inj read] at member
    cases member
  · rw [← Except.ok.inj read] at member
    cases member
  next items given =>
    have each := mapM_eq_ok.mp read
    obtain ⟨index, below, rfl⟩ := List.mem_iff_getElem.mp member
    have readOne := each.get (each.length_eq ▸ below) below
    unfold readTx at readOne
    split at readOne
    · cases readOne
    next parsed parses =>
      exact ⟨items, _, parsed, given, List.getElem_mem _, parses, (Except.ok.inj readOne).symm⟩
  · cases read

/-- A transaction of a block was parsed, and its output names were resolved. -/
theorem mem_readTxs {names : NameTable} {height : Nat} {txs : List Tx}
    (read : readTxs host names height block = .ok txs) {tx : Tx} (member : tx ∈ txs) :
    ∃ item parsed, parseUserTx host item height = .ok parsed ∧
      tx = names.resolveOutputNames host parsed := by
  obtain ⟨_, item, parsed, _, _, parses, resolved⟩ := mem_readTxs_items read member
  exact ⟨item, parsed, parses, resolved⟩

/-- What the checks before the transaction loop found. -/
structure Drafted (host : Host) (moment : Moment) (localPolicy : Bool) (node : Node) (block : Json)
    (draft : Draft) (payout : Text) : Prop where
  fields : readFields block = .ok draft.fields
  miner : submittedMiner node.names localPolicy draft.fields.wallet = .ok (draft.shown, payout)
  link : checkLink node draft.fields = .ok draft.prev
  binding : checkBinding host node localPolicy draft.fields draft.prev = .ok draft.binding
  stamp : checkStamp moment node draft.fields = .ok ()
  txs : readTxs host node.names draft.fields.height block = .ok draft.txs
  cbOuts : readCbOuts payout draft.fields.coinbase = .ok draft.cbOuts
  paid : checkPaid draft.fields.height (emissionFor draft.fields.height (feeUnits draft.txs))
    (feeUnits draft.txs) draft.cbOuts = .ok ()
  cb : checkCoinbase host draft.fields.height draft.fields.coinbase draft.cbOuts = .ok draft.cb

theorem checkDraft_ok {draft : Draft} :
    checkDraft host moment localPolicy node block = .ok draft ↔
      ∃ payout, Drafted host moment localPolicy node block draft payout := by
  simp only [checkDraft, bind_eq_ok, pure_eq_ok]
  constructor
  · rintro ⟨fields, read, ⟨shown, payout⟩, miner, prev, link, binding, bound, _, stamp, txs,
      readTxs,
      cbOuts, outs, _, paid, cb, coinbase, rfl⟩
    exact ⟨payout, read, miner, link, bound, stamp, readTxs, outs, paid, coinbase⟩
  · rintro ⟨payout, read, miner, link, bound, stamp, readTxs, outs, paid, coinbase⟩
    exact ⟨_, read, _, miner, _, link, _, bound, (), stamp, _, readTxs, _, outs, (), paid, _,
      coinbase, rfl⟩

/-- What a block passed as a whole. -/
structure Passed (host : Host) (moment : Moment) (localPolicy : Bool) (node : Node) (block : Json)
    (names : NameTable) (checked : Checked) : Prop where
  drafted : ∃ payout, Drafted host moment localPolicy node block checked.draft payout
  txs : checkTxs host node localPolicy checked.draft.fields.height checked.draft.txs
    [checked.draft.cb] node.flags node.names = (names, .ok checked.flags)
  work : checkWork host block checked.draft = .ok (checked.root, checked.digest)
  stored : checked.stored = storedBlock block checked.draft checked.root checked.digest names
  fits : checked.stored.dumpSize ≤ kMaxBlockBytes

theorem checkBlock_ok {names : NameTable} {checked : Checked} :
    checkBlock host moment localPolicy node block = (names, .ok checked) ↔
      Passed host moment localPolicy node block names checked := by
  constructor
  · intro accepted
    unfold checkBlock at accepted
    split at accepted
    · cases accepted
    next draft drafted =>
      split at accepted
      · cases accepted
      next loopNames flags loop =>
        split at accepted
        · cases accepted
        next root digest work =>
          dsimp only at accepted
          split at accepted
          · cases accepted
          next fits =>
            cases accepted
            exact ⟨checkDraft_ok.mp drafted, loop, work, rfl, Nat.not_lt.mp fits⟩
  · rintro ⟨drafted, loop, work, stored, fits⟩
    have read := checkDraft_ok.mpr drafted
    rw [checkBlock, read]
    simp only [loop, work]
    rw [← stored, if_neg (Nat.not_lt.mpr fits)]

end Stretches

/-! ## The call as a whole -/

section Call

variable {host : Host} {moment : Moment} {localPolicy : Bool} {node : Node} {params : Json}

/-- A submission without an acceptance changes at most the name table, by
remembering names. -/
theorem rpcSubmitblock_of_none (refused : acceptance host moment localPolicy node params = none) :
    ∃ names refusal, node.names.Written names ∧
      rpcSubmitblock host moment localPolicy node params =
        ({ node with names := names }, .refused refusal) := by
  unfold acceptance at refused
  unfold rpcSubmitblock
  cases given : asObjectParam host params with
  | object members =>
      rw [given] at refused
      cases members with
      | nil => exact ⟨node.names, _, .refl, rfl⟩
      | cons member members =>
          dsimp only at refused ⊢
          split at refused
          · cases refused
          next names refusal failed =>
            simp only [failed]
            refine ⟨names, refusal, ?_, rfl⟩
            have checked := checkBlock_written host localPolicy moment node
              (.object (member :: members))
            rwa [failed] at checked
  | _ => exact ⟨node.names, _, .refl, rfl⟩

/-- What an acceptance records of its own submission. -/
structure Accepted.Of (accepted : Accepted host) (moment : Moment) (localPolicy : Bool)
    (node : Node) : Prop where
  moment_eq : accepted.moment = moment
  policy_eq : accepted.localPolicy = localPolicy
  node_eq : accepted.node = node

theorem acceptance_of {accepted : Accepted host}
    (passed : acceptance host moment localPolicy node params = some accepted) :
    accepted.Of moment localPolicy node := by
  unfold acceptance at passed
  split at passed
  · split at passed
    · cases passed
      exact ⟨rfl, rfl, rfl⟩
    · cases passed
  · cases passed

/-- A submission with an acceptance connects the block, unless it is stored. -/
theorem rpcSubmitblock_of_some {accepted : Accepted host}
    (passed : acceptance host moment localPolicy node params = some accepted) :
    rpcSubmitblock host moment localPolicy node params =
      match node.storage.blockIndex accepted.hash with
      | some _ =>
          ({ node with names := accepted.names },
            .accepted accepted.hash (((node.storage.getHeaderByHash accepted.hash).map
              BlockHeader.height).getD accepted.height) true)
      | none =>
          (connectBlock host moment localPolicy { node with names := accepted.names }
            accepted.checked, .accepted accepted.hash accepted.height false) := by
  unfold acceptance at passed
  unfold rpcSubmitblock
  cases given : asObjectParam host params with
  | object members =>
      rw [given] at passed
      cases members with
      | nil => cases passed
      | cons member members =>
          dsimp only at passed ⊢
          split at passed
          next names checked succeeded =>
            cases passed
            simp only [succeeded]
            rfl
          · cases passed
  | _ =>
      rw [given] at passed
      cases passed

/-- The call accepts a block exactly when there is an acceptance of that hash. -/
theorem rpcSubmitblock_accepted {next : Node} {hash : Digest} {height : Nat} {duplicate : Bool}
    (accepts : rpcSubmitblock host moment localPolicy node params =
      (next, .accepted hash height duplicate)) :
    ∃ accepted, acceptance host moment localPolicy node params = some accepted ∧
      accepted.hash = hash := by
  cases passed : acceptance host moment localPolicy node params with
  | none =>
      obtain ⟨names, refusal, _, refused⟩ := rpcSubmitblock_of_none passed
      rw [refused] at accepts
      cases accepts
  | some accepted =>
      refine ⟨accepted, rfl, ?_⟩
      rw [rpcSubmitblock_of_some passed] at accepts
      split at accepts <;> cases accepts <;> rfl

/-- A submission connects nothing and changes at most the name table, or it
connects one block that passed and was not stored. -/
theorem submission_cases (host : Host) (moment : Moment) (localPolicy : Bool) (node : Node)
    (params : Json) :
    (connection host moment localPolicy node params = [] ∧
      ∃ names, node.names.Written names ∧
        (rpcSubmitblock host moment localPolicy node params).1 = { node with names := names }) ∨
    ∃ accepted, acceptance host moment localPolicy node params = some accepted ∧
      node.storage.blockIndex accepted.hash = none ∧
      connection host moment localPolicy node params = [accepted] ∧
      (rpcSubmitblock host moment localPolicy node params).1 =
        connectBlock host moment localPolicy { node with names := accepted.names }
          accepted.checked := by
  unfold connection
  cases passed : acceptance host moment localPolicy node params with
  | none =>
      obtain ⟨names, refusal, written, refused⟩ := rpcSubmitblock_of_none passed
      exact .inl ⟨rfl, names, written, by rw [refused]⟩
  | some accepted =>
      rw [rpcSubmitblock_of_some passed]
      cases stored : node.storage.blockIndex accepted.hash with
      | none =>
          refine .inr ⟨accepted, rfl, stored, ?_, rfl⟩
          simp only [stored, Option.isSome_none, Bool.false_eq_true, ↓reduceIte]
      | some index =>
          refine .inl ⟨?_, accepted.names, ?_, rfl⟩
          · simp only [stored, Option.isSome_some, ↓reduceIte]
          · have checked := checkBlock_written host accepted.localPolicy
              accepted.moment accepted.node accepted.block
            rw [accepted.passed, (acceptance_of passed).node_eq] at checked
            exact checked

end Call

/-! ## Facts of an accepted block -/

namespace Accepted

variable {host : Host} (accepted : Accepted host)

theorem passes : Passed host accepted.moment accepted.localPolicy accepted.node accepted.block
    accepted.names accepted.checked :=
  checkBlock_ok.mp accepted.passed

/-- The checks remember names at most. -/
theorem names_written : accepted.node.names.Written accepted.names := by
  have checked := checkBlock_written host accepted.localPolicy accepted.moment accepted.node
    accepted.block
  rwa [accepted.passed] at checked

/-- The parent of an accepted block is the tip of the node that accepted it. -/
theorem prev_eq : accepted.prev = expectPrev accepted.node.storage := by
  obtain ⟨payout, drafted⟩ := accepted.passes.drafted
  exact (checkLink_ok.mp drafted.link).2.1

/-- Its height is the next one. -/
theorem height_eq : accepted.height = accepted.node.nextHeight := by
  obtain ⟨payout, drafted⟩ := accepted.passes.drafted
  exact (checkLink_ok.mp drafted.link).2.2

theorem height_pos : 1 ≤ accepted.height := by
  rw [height_eq, Node.nextHeight]
  split <;> omega

theorem cb_eq : accepted.cb = coinbaseFrom host accepted.height accepted.checked.draft.cbOuts := by
  obtain ⟨payout, drafted⟩ := accepted.passes.drafted
  exact (checkCoinbase_ok.mp drafted.cb).1

end Accepted

end PiSecure
