import PiSecure.Theory.FlagRules
import PiSecure.Theory.Mining

/-! # What a verdict reads besides the chain

A block that is submitted without the local policy is checked against the active chain,
and against state that is not confirmed: the table of names with what is pending, the
flags with what is pending, and the key files of the operator. Two nodes on one chain
agree on a block when they agree on what it reads of that state.
-/

namespace PiSecure

variable {host : Host}

/-! ## What a block reads -/

/-- Two nodes on one active chain: the same headers on it, and the same coins. Headers of
abandoned blocks may differ. -/
structure SameActive (node other : Node) : Prop where
  heightToHash : other.storage.heightToHash = node.storage.heightToHash
  bestBlockHash : other.storage.bestBlockHash = node.storage.bestBlockHash
  bestHeight : other.storage.bestHeight = node.storage.bestHeight
  active : ∀ hash ∈ node.storage.heightToHash,
    other.storage.getHeaderByHash hash = node.storage.getHeaderByHash hash
  tip : node.storage.hasTip = true → other.storage.getHeaderByHash node.storage.bestBlockHash =
    node.storage.getHeaderByHash node.storage.bestBlockHash
  utxo : other.storage.utxo = node.storage.utxo

/-- A transaction of a block, as it is parsed before its output names are resolved. -/
def Lists (host : Host) (block : Json) (tx : Tx) : Prop :=
  ∃ fields items item, readFields block = .ok fields ∧ block.get? "txs" = some (.array items) ∧
    item ∈ items ∧ parseUserTx host item fields.height = .ok tx

/-- A text that a block has looked up in the table of names: its wallet, what its
transactions pay, and what they register. -/
inductive Mentions (host : Host) (block : Json) : Text → Prop
  | wallet {fields : SubmittedFields} (read : readFields block = .ok fields) :
      Mentions host block fields.wallet
  | paid {tx : Tx} {output : TxOut} (listed : Lists host block tx) (pays : output ∈ tx.outputs) :
      Mentions host block output.address
  | registered {tx : Tx} (listed : Lists host block tx) (registers : tx.reg = true) :
      Mentions host block tx.name

/-- The id of a flag that a transaction of a block makes or claims. -/
def Flags (host : Host) (block : Json) (id : Text) : Prop :=
  ∃ tx, Lists host block tx ∧ tx.flagKind ≠ .none ∧ tx.flagId = id

/-- An address whose key a block presents with a signature: the owner of an output of the
chain, or of one that the block creates before. -/
def SignsFor (host : Host) (moment : Moment) (node : Node) (block : Json) (owner : Text) : Prop :=
  ∃ draft before tx after input found, checkDraft host moment false node block = .ok draft ∧
    draft.txs = before ++ tx :: after ∧ input ∈ tx.inputs ∧ input.signatureHex ≠ [] ∧
    findOutpoint node.storage.utxo (draft.cb :: before) input.prev input.vout 0 = some found ∧
    found.owner = owner

/-- Whether the document of a block, with the names that the node adds to it, is small
enough to be stored. -/
def fitsWithNames (host : Host) (moment : Moment) (node : Node) (block : Json) : Bool :=
  match checkDraft host moment false node block with
  | .error _ => true
  | .ok draft =>
      match checkWork host block draft with
      | .error _ => true
      | .ok (root, digest) =>
          (storedBlock block draft root digest node.names).dumpSize ≤ kMaxBlockBytes

/-- Two nodes agree on the local state that a block reads. -/
structure ReadsAlike (host : Host) (moment : Moment) (node other : Node) (block : Json) : Prop where
  names : ∀ text, Mentions host block text →
    (other.names.findName text).map NameRec.address = (node.names.findName text).map NameRec.address
  flags : ∀ id, Flags host block id → other.flags.find id = node.flags.find id
  keys : ∀ owner, SignsFor host moment node block owner →
    boundPublicKey other.wallets owner = boundPublicKey node.wallets owner
  fits : fitsWithNames host moment other block = fitsWithNames host moment node block

/-! ## Flags -/

/-- Two flag books hold the same flags under some ids. -/
def AgreeOn (ids : List Text) (book other : FlagBook) : Prop :=
  ∀ id ∈ ids, FlagBook.find other id = FlagBook.find book id

/-- Two checks end the same way: with one reason, or with books that hold the same flags
under some ids. -/
inductive EndAlike (ids : List Text) : Except String FlagBook → Except String FlagBook → Prop
  | error (reason : String) : EndAlike ids (.error reason) (.error reason)
  | ok {book other : FlagBook} (agree : AgreeOn ids book other) :
    EndAlike ids (.ok book) (.ok other)

section Flags

variable {ids : List Text} {book other : FlagBook}

theorem FlagBook.create_alike (agree : AgreeOn ids book other) {incoming : Flag}
    (listed : incoming.id ∈ ids) :
    EndAlike ids (book.create incoming) (FlagBook.create other incoming) := by
  unfold FlagBook.create
  rw [agree incoming.id listed]
  split
  · split
    · exact .ok agree
    · exact .error _
  · split
    · exact .error _
    next lock _ =>
      refine .ok fun id listedId => ?_
      unfold FlagBook.find
      rw [List.find?_append, List.find?_append]
      exact congrArg (fun found => Option.or found _) (agree id listedId)

theorem FlagBook.claim_alike (agree : AgreeOn ids book other) {flagId : Text}
    (listed : flagId ∈ ids) (recipient awardsPubkey : Text) (height : Nat) (txid : Text) :
    EndAlike ids (book.claim flagId recipient awardsPubkey height txid)
      (FlagBook.claim other flagId recipient awardsPubkey height txid) := by
  have same := agree flagId listed
  unfold FlagBook.claim
  rw [same]
  split
  · exact .error _
  next flag found =>
    split
    · split
      · exact .ok agree
      · exact .error _
    · split_ifs
      iterate 4 exact .error _
      refine .ok fun id listedId => ?_
      have named : (FlagBook.recordClaim flag recipient txid).id = flagId :=
        (FlagBook.find_id found : flag.id = flagId)
      by_cases claimed : id = flagId
      · rw [claimed, FlagBook.find_replace_self found named,
          FlagBook.find_replace_self (same.trans found) named]
      · rw [FlagBook.find_replace_of_ne _ named claimed,
          FlagBook.find_replace_of_ne _ named claimed]
        exact agree id listedId

theorem applyFlagTx_alike (agree : AgreeOn ids book other) {tx : Tx}
    (listed : tx.flagKind ≠ .none → tx.flagId ∈ ids) (height : Nat) :
    EndAlike ids (applyFlagTx book tx height) (applyFlagTx other tx height) := by
  unfold applyFlagTx
  cases kind : tx.flagKind with
  | create => exact FlagBook.create_alike agree (listed (by rw [kind]; decide))
  | claim => exact FlagBook.claim_alike agree (listed (by rw [kind]; decide)) _ _ _ _
  | none => exact .ok agree

end Flags

/-! ## The checks before the transactions -/

section Draft

variable {moment : Moment} {node other : Node} {block : Json}

namespace SameActive

theorem refl (node : Node) : SameActive node node :=
  ⟨rfl, rfl, rfl, fun _ _ => rfl, fun _ => rfl, rfl⟩

variable (same : SameActive node other)

include same

theorem hasTip : other.storage.hasTip = node.storage.hasTip := by
  rw [Storage.hasTip, Storage.hasTip, same.heightToHash]

theorem expectPrev : PiSecure.expectPrev other.storage = PiSecure.expectPrev node.storage := by
  rw [PiSecure.expectPrev, PiSecure.expectPrev, same.hasTip, same.bestBlockHash]

theorem nextHeight : other.nextHeight = node.nextHeight := by
  rw [Node.nextHeight, Node.nextHeight, same.hasTip, same.bestHeight]

theorem getHeaderByHeight (height : Nat) :
    other.storage.getHeaderByHeight height = node.storage.getHeaderByHeight height := by
  rw [Storage.getHeaderByHeight, Storage.getHeaderByHeight, same.heightToHash]
  cases found : node.storage.heightToHash[height]? with
  | none => rfl
  | some hash => exact same.active hash (List.mem_of_getElem? found)

theorem tipBits : PiSecure.tipBits other.storage = PiSecure.tipBits node.storage := by
  have bits : other.storage.tipDifficulty = node.storage.tipDifficulty := by
    rw [Storage.tipDifficulty, Storage.tipDifficulty, same.hasTip, same.bestBlockHash]
    split
    next tipped => rw [same.tip tipped]
    next => rfl
  rw [PiSecure.tipBits, PiSecure.tipBits, bits]

theorem nextDifficulty :
    PiSecure.nextDifficulty other.storage = PiSecure.nextDifficulty node.storage := by
  unfold PiSecure.nextDifficulty nextDifficultyLegacy nextDifficultyWindow
  rw [same.hasTip, same.bestHeight]
  by_cases tipped : node.storage.hasTip = true
  · simp only [same.bestBlockHash, same.tip tipped, same.tipBits, same.getHeaderByHeight]
  · simp only [tipped, Bool.false_eq_true, not_false_eq_true, ↓reduceIte]

theorem parentTime : PiSecure.parentTime other.storage = PiSecure.parentTime node.storage := by
  rw [PiSecure.parentTime, PiSecure.parentTime, same.hasTip, same.expectPrev]
  split
  next tipped =>
    have isTip : PiSecure.expectPrev node.storage = node.storage.bestBlockHash := if_pos tipped
    rw [isTip, same.tip tipped]
  next => rfl

theorem checkLink (fields : SubmittedFields) :
    PiSecure.checkLink other fields = PiSecure.checkLink node fields := by
  rw [PiSecure.checkLink, PiSecure.checkLink, same.expectPrev, same.nextHeight]

theorem checkStamp (fields : SubmittedFields) :
    PiSecure.checkStamp moment other fields = PiSecure.checkStamp moment node fields := by
  rw [PiSecure.checkStamp, PiSecure.checkStamp, same.nextDifficulty, same.parentTime]

end SameActive

/-- A synced block does not need a challenge that the node has issued. -/
theorem checkBinding_synced (host : Host) (node other : Node) (fields : SubmittedFields)
    (prev : Digest) :
    checkBinding host other false fields prev = checkBinding host node false fields prev := rfl

theorem findName_resolve {names later : NameTable} {text : Text}
    (alike : (later.findName text).map NameRec.address =
      (names.findName text).map NameRec.address) :
    (later.findName text = none ∧ names.findName text = none) ∨
      ∃ rec last, names.findName text = some rec ∧ later.findName text = some last ∧
        last.address = rec.address := by
  cases found : names.findName text with
  | none =>
      rw [found] at alike
      exact .inl ⟨Option.map_eq_none_iff.mp alike, rfl⟩
  | some rec =>
      rw [found] at alike
      obtain ⟨last, again, same⟩ := Option.map_eq_some_iff.mp alike
      exact .inr ⟨rec, last, rfl, again, same⟩

theorem resolveMiner_alike {names later : NameTable} {wallet : Text}
    (alike : (later.findName wallet).map NameRec.address =
      (names.findName wallet).map NameRec.address) :
    (∃ why, names.resolveMiner wallet = .error why ∧ later.resolveMiner wallet = .error why) ∨
      ∃ shown another payout, names.resolveMiner wallet = .ok (shown, payout) ∧
        later.resolveMiner wallet = .ok (another, payout) := by
  unfold NameTable.resolveMiner
  dsimp only
  split_ifs
  · exact .inl ⟨_, rfl, rfl⟩
  · exact .inr ⟨_, _, _, rfl, rfl⟩
  · rcases findName_resolve alike with ⟨missing, absent⟩ | ⟨rec, last, found, again, same⟩
    · rw [missing, absent]
      exact .inl ⟨_, rfl, rfl⟩
    · rw [found, again]
      dsimp only
      rw [same]
      exact .inr ⟨_, _, _, rfl, rfl⟩
  · exact .inl ⟨_, rfl, rfl⟩

/-- The miner of a synced block is paid the same way; only the shown name may differ. -/
theorem submittedMiner_alike {names later : NameTable} {wallet : Text}
    (alike : (later.findName wallet).map NameRec.address =
      (names.findName wallet).map NameRec.address) :
    ∃ shown another payout, submittedMiner names false wallet = .ok (shown, payout) ∧
      submittedMiner later false wallet = .ok (another, payout) := by
  unfold submittedMiner
  rcases resolveMiner_alike alike with ⟨why, first, second⟩ |
    ⟨shown, another, payout, first, second⟩
  · rw [first, second]
    exact ⟨_, _, _, rfl, rfl⟩
  · rw [first, second]
    exact ⟨_, _, _, rfl, rfl⟩

theorem resolveOutputNames_alike {names later : NameTable} {tx : Tx}
    (alike : ∀ output ∈ tx.outputs, (later.findName output.address).map NameRec.address =
      (names.findName output.address).map NameRec.address) :
    later.resolveOutputNames host tx = names.resolveOutputNames host tx := by
  have outputs : tx.outputs.map later.resolveOutput = tx.outputs.map names.resolveOutput := by
    refine List.map_congr_left fun output paid => ?_
    unfold NameTable.resolveOutput
    rcases findName_resolve (alike output paid) with ⟨missing, absent⟩ |
      ⟨rec, last, found, again, same⟩
    · rw [missing, absent]
    · rw [found, again]
      dsimp only
      rw [same]
  unfold NameTable.resolveOutputNames
  dsimp only
  rw [outputs]

theorem mapM_alike {α β : Type} {read again : α → Except Refusal β} {items : List α}
    (alike : ∀ item ∈ items, again item = read item) : items.mapM again = items.mapM read := by
  induction items with
  | nil => rfl
  | cons first rest ih =>
      rw [List.mapM_cons, List.mapM_cons, alike first List.mem_cons_self,
        ih fun item member => alike item (List.mem_cons_of_mem _ member)]

theorem readTxs_alike {names later : NameTable} {fields : SubmittedFields}
    (read : readFields block = .ok fields)
    (alike : ∀ text, Mentions host block text → (later.findName text).map NameRec.address =
      (names.findName text).map NameRec.address) :
    readTxs host later fields.height block = readTxs host names fields.height block := by
  unfold readTxs
  split
  · rfl
  · rfl
  next items given =>
    refine mapM_alike fun item member => ?_
    unfold readTx
    split
    · rfl
    next tx parsed =>
      refine congrArg Except.ok (resolveOutputNames_alike fun output paid => ?_)
      exact alike _ (.paid ⟨fields, items, item, read, given, member, parsed⟩ paid)
  · rfl

/-- A draft that shows the miner under another name. -/
def Draft.showing (draft : Draft) (shown : Text) : Draft := { draft with shown := shown }

/-- The checks before the transactions end the same way; only the shown name of the miner
may differ. -/
theorem checkDraft_alike (same : SameActive node other)
    (alike : ∀ text, Mentions host block text → (other.names.findName text).map NameRec.address =
      (node.names.findName text).map NameRec.address) :
    ∃ shown, checkDraft host moment false other block =
      (checkDraft host moment false node block).map (Draft.showing · shown) := by
  unfold checkDraft
  cases read : readFields block with
  | error refusal => exact ⟨[], rfl⟩
  | ok fields =>
      obtain ⟨shown, another, payout, first, second⟩ :=
        submittedMiner_alike (alike _ (.wallet read))
      refine ⟨another, ?_⟩
      dsimp only [bind, Except.bind]
      rw [first, second]
      dsimp only
      rw [same.checkLink]
      cases PiSecure.checkLink node fields with
      | error refusal => rfl
      | ok prev =>
          dsimp only
          rw [checkBinding_synced host node other]
          cases checkBinding host node false fields prev with
          | error refusal => rfl
          | ok binding =>
              dsimp only
              rw [same.checkStamp]
              cases PiSecure.checkStamp moment node fields with
              | error refusal => rfl
              | ok stamped =>
                  dsimp only
                  rw [readTxs_alike read alike]
                  cases readTxs host node.names fields.height block with
                  | error refusal => rfl
                  | ok txs =>
                      dsimp only
                      cases readCbOuts payout fields.coinbase with
                      | error refusal => rfl
                      | ok cbOuts =>
                          dsimp only
                          cases checkPaid fields.height
                            (emissionFor fields.height (feeUnits txs)) (feeUnits txs) cbOuts with
                          | error refusal => rfl
                          | ok paid =>
                              dsimp only
                              cases checkCoinbase host fields.height fields.coinbase cbOuts with
                              | error refusal => rfl
                              | ok cb => rfl

end Draft

/-! ## The transactions -/

section Loop

variable {node other : Node} {height : Nat} {prior : List Tx} {ids : List Text}
  {staged later : FlagBook} {tx : Tx}

/-- Two nodes agree on the keys of the outputs that a transaction spends with a signature. -/
def KeysAlike (node other : Node) (prior : List Tx) (tx : Tx) : Prop :=
  ∀ input ∈ tx.inputs, input.signatureHex ≠ [] → ∀ found,
    findOutpoint node.storage.utxo prior input.prev input.vout 0 = some found →
    boundPublicKey other.wallets found.owner = boundPublicKey node.wallets found.owner

theorem claimRelease_alike (agree : AgreeOn ids staged later)
    (listed : tx.flagKind ≠ .none → tx.flagId ∈ ids) :
    claimRelease tx later prior = claimRelease tx staged prior := by
  unfold claimRelease
  split
  · rfl
  next claims =>
    rw [agree tx.flagId (listed (by rw [not_not.mp claims]; decide))]

theorem flagOutputsOk_alike (utxo : UtxoSet) (agree : AgreeOn ids staged later)
    (listed : tx.flagKind ≠ .none → tx.flagId ∈ ids) :
    flagOutputsOk host utxo tx (later.find tx.flagId) prior =
      flagOutputsOk host utxo tx (staged.find tx.flagId) prior := by
  by_cases plain : tx.flagKind = .none
  · unfold flagOutputsOk
    rw [plain]
  · rw [agree tx.flagId (listed plain)]

theorem forM_alike {α : Type} {check again : α → Except String Unit} {items : List α}
    (alike : ∀ item ∈ items, again item = check item) : items.forM again = items.forM check := by
  induction items with
  | nil => rfl
  | cons first rest ih =>
      have later := ih fun item member => alike item (List.mem_cons_of_mem _ member)
      rw [List.forM_eq_forM] at later ⊢
      rw [List.forM_cons, List.forM_cons, alike first List.mem_cons_self, later]

theorem verifyInputSignatures_alike (same : SameActive node other)
    (keys : KeysAlike node other prior tx) :
    verifyInputSignatures host other.wallets other.storage.utxo tx false prior =
      verifyInputSignatures host node.wallets node.storage.utxo tx false prior := by
  unfold verifyInputSignatures
  split
  · rfl
  · refine forM_alike fun input member => ?_
    unfold verifyInput
    rw [same.utxo]
    split
    · rfl
    next found located =>
      by_cases unsigned : input.signatureHex = []
      · simp [unsigned]
      · dsimp only
        rw [keys input member unsigned found located]

/-- A registration of a synced block: the names stay, and the verdict depends on the
address that its name has. -/
theorem admitRegister_alike (same : SameActive node other) {names again : NameTable}
    (alike : tx.reg = true → (again.findName tx.name).map NameRec.address =
      (names.findName tx.name).map NameRec.address) :
    ∃ result, admitRegister host node.namesFile node.storage.utxo tx false prior names =
        (names, result) ∧
      admitRegister host other.namesFile other.storage.utxo tx false prior again =
        (again, result) := by
  unfold admitRegister
  rw [same.utxo]
  by_cases registers : tx.reg = true
  · have taken : (again.findName tx.name).any (fun rec => rec.address != tx.regAddress) =
        (names.findName tx.name).any fun rec => rec.address != tx.regAddress := by
      rcases findName_resolve (alike registers) with ⟨missing, absent⟩ |
        ⟨rec, last, found, repeated, owner⟩
      · rw [missing, absent]
      · rw [found, repeated, Option.any_some, Option.any_some, owner]
    rw [taken, if_neg (not_not.mpr registers), if_neg (not_not.mpr registers)]
    by_cases valid : validShortname tx.name = true
    · rw [if_neg (not_not.mpr valid), if_neg (not_not.mpr valid)]
      by_cases long : isLongAddress tx.regAddress = true
      · rw [if_neg (not_not.mpr long), if_neg (not_not.mpr long)]
        split
        · exact ⟨_, rfl, rfl⟩
        · split
          · exact ⟨_, rfl, rfl⟩
          · rw [if_neg (by simp), if_neg (by simp)]
            exact ⟨_, rfl, rfl⟩
      · rw [if_pos long, if_pos long]
        exact ⟨_, rfl, rfl⟩
    · rw [if_pos valid, if_pos valid]
      exact ⟨_, rfl, rfl⟩
  · rw [if_pos registers, if_pos registers]
    exact ⟨_, rfl, rfl⟩

/-- The checks of one transaction of a synced block end the same way. -/
theorem checkTx_alike (same : SameActive node other) (agree : AgreeOn ids staged later)
    (listed : tx.flagKind ≠ .none → tx.flagId ∈ ids) (keys : KeysAlike node other prior tx)
    (alike : tx.reg = true → (other.names.findName tx.name).map NameRec.address =
      (node.names.findName tx.name).map NameRec.address) :
    ∃ result again, checkTx host node false height prior staged node.names tx =
        (node.names, result) ∧
      checkTx host other false height prior later other.names tx = (other.names, again) ∧
      EndAlike ids result again := by
  unfold checkTx
  dsimp only
  rw [verifyInputSignatures_alike same keys, claimRelease_alike agree listed, same.utxo]
  split
  · exact ⟨_, _, rfl, rfl, .error _⟩
  · split
    · exact ⟨_, _, rfl, rfl, .error _⟩
    · obtain ⟨result, first, second⟩ := @admitRegister_alike host _ _ prior _ same _ _ alike
      rw [same.utxo] at second
      rw [first, second]
      cases result with
      | error reason => exact ⟨_, _, rfl, rfl, .error _⟩
      | ok admitted =>
          dsimp only
          rw [flagOutputsOk_alike node.storage.utxo agree listed]
          split
          · exact ⟨_, _, rfl, rfl, .error _⟩
          · exact ⟨_, _, rfl, rfl, applyFlagTx_alike agree listed height⟩

/-- Two nodes agree on the local state that the transactions of a block read, on top of
the ones before them. -/
structure TxsAlike (node other : Node) (ids : List Text) (prior txs : List Tx) : Prop where
  names : ∀ tx ∈ txs, tx.reg = true → (other.names.findName tx.name).map NameRec.address =
    (node.names.findName tx.name).map NameRec.address
  flags : ∀ tx ∈ txs, tx.flagKind ≠ .none → tx.flagId ∈ ids
  keys : ∀ front tx after, txs = front ++ tx :: after → KeysAlike node other (prior ++ front) tx

theorem TxsAlike.tail {rest : List Tx} (alike : TxsAlike node other ids prior (tx :: rest)) :
    TxsAlike node other ids (prior ++ [tx]) rest where
  names later member := alike.names later (List.mem_cons_of_mem _ member)
  flags later member := alike.flags later (List.mem_cons_of_mem _ member)
  keys front later after split := by
    have keys := alike.keys (tx :: front) later after (by rw [split, List.cons_append])
    rwa [List.append_assoc, List.singleton_append]

/-- The transaction loop of a synced block ends the same way, and leaves the names. -/
theorem checkTxs_alike (same : SameActive node other) {txs : List Tx}
    (agree : AgreeOn ids staged later) (alike : TxsAlike node other ids prior txs) :
    ∃ result again, checkTxs host node false height txs prior staged node.names =
        (node.names, result) ∧
      checkTxs host other false height txs prior later other.names = (other.names, again) ∧
      EndAlike ids result again := by
  induction txs generalizing prior staged later with
  | nil => exact ⟨_, _, rfl, rfl, .ok agree⟩
  | cons tx rest ih =>
      have keys := alike.keys [] tx rest rfl
      rw [List.append_nil] at keys
      obtain ⟨result, again, first, second, ended⟩ := @checkTx_alike host _ _ height _ _ _ _ _
        same agree (alike.flags tx List.mem_cons_self) keys (alike.names tx List.mem_cons_self)
      rw [checkTxs, checkTxs, first, second]
      cases ended with
      | error reason => exact ⟨_, _, rfl, rfl, .error _⟩
      | ok agreed => exact ih agreed alike.tail

end Loop

/-! ## The verdict -/

section Verdict

variable {moment : Moment} {node other : Node} {block : Json}

/-- A transaction as it is parsed, and with its output names resolved. -/
structure SameRequest (parsed tx : Tx) : Prop where
  reg : tx.reg = parsed.reg
  name : tx.name = parsed.name
  flagKind : tx.flagKind = parsed.flagKind
  flagId : tx.flagId = parsed.flagId

/-- The transactions of a draft are those that the block lists, with their output names
resolved. -/
theorem exists_lists {names : NameTable} {fields : SubmittedFields} {txs : List Tx}
    (read : readFields block = .ok fields)
    (readTxs : readTxs host names fields.height block = .ok txs) {tx : Tx} (member : tx ∈ txs) :
    ∃ listed, Lists host block listed ∧ SameRequest listed tx := by
  obtain ⟨items, item, parsed, given, inside, parses, rfl⟩ := mem_readTxs_items readTxs member
  refine ⟨parsed, ⟨fields, items, item, read, given, inside, parses⟩, ?_⟩
  unfold NameTable.resolveOutputNames
  dsimp only
  split <;> exact ⟨rfl, rfl, rfl, rfl⟩

/-- The ids of the flags that transactions make or claim. -/
def flagIds (txs : List Tx) : List Text :=
  (txs.filter fun tx => tx.flagKind ≠ .none).map Tx.flagId

/-- What a block reads of the local state covers what its transactions read. -/
theorem ReadsAlike.txs (alike : ReadsAlike host moment node other block) {draft : Draft}
    (drafted : checkDraft host moment false node block = .ok draft) :
    AgreeOn (flagIds draft.txs) node.flags other.flags ∧
      TxsAlike node other (flagIds draft.txs) [draft.cb] draft.txs := by
  obtain ⟨payout, passed⟩ := checkDraft_ok.mp drafted
  refine ⟨fun id named => ?_, fun tx member registers => ?_, fun tx member kind => ?_,
    fun front tx after split input spends signed found located => ?_⟩
  · obtain ⟨tx, kept, rfl⟩ := List.mem_map.mp named
    obtain ⟨member, kind⟩ := List.mem_filter.mp kept
    obtain ⟨listed, lists, same⟩ := exists_lists passed.fields passed.txs member
    refine alike.flags _ ⟨listed, lists, ?_, same.flagId.symm⟩
    rw [← same.flagKind]
    exact of_decide_eq_true kind
  · obtain ⟨listed, lists, same⟩ := exists_lists passed.fields passed.txs member
    rw [same.name]
    exact alike.names _ (.registered lists (same.reg ▸ registers))
  · exact List.mem_map_of_mem (List.mem_filter.mpr ⟨member, decide_eq_true kind⟩)
  · exact alike.keys _
      ⟨draft, front, tx, after, input, found, drafted, split, spends, signed, located, rfl⟩

/-- A block passes the checks of both nodes, or of neither. -/
theorem checkBlock_alike (same : SameActive node other)
    (alike : ReadsAlike host moment node other block) :
    (checkBlock host moment false other block).2.isOk =
    (checkBlock host moment false node block).2.isOk := by
  obtain ⟨shown, drafts⟩ := @checkDraft_alike _ moment _ _ _ same alike.names
  unfold checkBlock
  rw [drafts]
  cases drafted : checkDraft host moment false node block with
  | error refusal => rfl
  | ok draft =>
      obtain ⟨agree, txs⟩ := alike.txs drafted
      obtain ⟨result, again, first, second, ended⟩ := @checkTxs_alike host _ _
        draft.fields.height _ _ _ _ same _ agree txs
      have reread : checkTxs host other false (draft.showing shown).fields.height
          (draft.showing shown).txs [(draft.showing shown).cb] other.flags other.names =
          (other.names, again) := second
      have rework : checkWork host block (draft.showing shown) = checkWork host block draft := rfl
      dsimp only [Except.map]
      rw [first, reread, rework]
      cases ended with
      | error reason => rfl
      | ok agreed =>
          dsimp only
          cases worked : checkWork host block draft with
          | error refusal => rfl
          | ok work =>
              have fits := alike.fits
              unfold fitsWithNames at fits
              rw [drafts, drafted] at fits
              dsimp only [Except.map] at fits ⊢
              rw [rework, worked] at fits
              have large : (storedBlock block (draft.showing shown) work.1 work.2
                    other.names).dumpSize > kMaxBlockBytes ↔
                  (storedBlock block draft work.1 work.2 node.names).dumpSize > kMaxBlockBytes := by
                rw [gt_iff_lt, gt_iff_lt, ← not_le, ← not_le]
                exact not_congr (decide_eq_decide.mp fits)
              by_cases big :
                  (storedBlock block draft work.1 work.2 node.names).dumpSize > kMaxBlockBytes
              · rw [if_pos big, if_pos (large.mpr big)]
              · rw [if_neg big, if_neg fun tooBig => big (large.mp tooBig)]
                rfl

/-- The verdict of a call on an object is whether the object passes the checks. -/
theorem rpcSubmitblock_isAccepted (host : Host) (moment : Moment) (localPolicy : Bool) (node : Node)
    (params : Json) : (rpcSubmitblock host moment localPolicy node params).2.isAccepted =
      (isFilled (asObjectParam host params) &&
        (checkBlock host moment localPolicy node (asObjectParam host params)).2.isOk) := by
  unfold rpcSubmitblock
  cases asObjectParam host params with
  | object members =>
      cases members with
      | nil => rfl
      | cons member members =>
          dsimp only
          split
          next names refusal failed =>
            rw [failed]
            rfl
          next names checked passed =>
            rw [passed]
            split <;> rfl
  | _ => rfl

/-- **Verdicts and local state.** Two nodes on one active chain, at one time, give a synced
block the same verdict when they agree on what it reads of their local state: the names
that it mentions, the flags that it makes or claims, the key files of the owners that it
signs for, and whether the document with the names added to it is small enough. -/
theorem submitblock_alike {params : Json} (same : SameActive node other)
    (alike : ReadsAlike host moment node other (asObjectParam host params)) :
    (rpcSubmitblock host moment false other params).2.isAccepted =
      (rpcSubmitblock host moment false node params).2.isAccepted := by
  rw [rpcSubmitblock_isAccepted, rpcSubmitblock_isAccepted, checkBlock_alike same alike]

end Verdict

section Samples

/-- A node with other key files, and with a flag that only waits. -/
def busy (node : Node) : Node :=
  { node with
    wallets := fun _ => some .null
    flags := [⟨"f".toList, [], [], 1, 0, 5, [], 5, [], [], []⟩]
    mempoolFile := some .null }

theorem busy_storage (node : Node) : (busy node).storage = node.storage := rfl

/-- Such a node after a failed adoption. -/
def busyNode : Node := busy (rolledBack storedHost)

/-- What the two nodes have of the active chain. The header of the block that was left
again is only known to one of them. -/
private theorem busy_shown :
    (busyNode.storage.heightToHash = (openedNode storedHost).storage.heightToHash ∧
      busyNode.storage.bestBlockHash = (openedNode storedHost).storage.bestBlockHash ∧
      busyNode.storage.bestHeight = (openedNode storedHost).storage.bestHeight ∧
      busyNode.storage.utxo = (openedNode storedHost).storage.utxo) ∧
    (∀ hash ∈ (openedNode storedHost).storage.heightToHash,
      busyNode.storage.getHeaderByHash hash =
      (openedNode storedHost).storage.getHeaderByHash hash) ∧
    busyNode.storage.getHeaderByHash (openedNode storedHost).storage.bestBlockHash =
      (openedNode storedHost).storage.getHeaderByHash
        (openedNode storedHost).storage.bestBlockHash ∧
    busyNode.storage.getHeaderByHash secondHash ≠
      (openedNode storedHost).storage.getHeaderByHash secondHash ∧
    busyNode.names = [] ∧ busyNode.storage.blockIndex spendingHash = none ∧
    fitsWithNames storedHost sampleMoment busyNode spendingBlock.json = true := by
  rw [busyNode, busy, rolledBack, storedHost_opened]
  decide +kernel

theorem busyNode_same : SameActive (openedNode storedHost) busyNode := by
  obtain ⟨⟨heights, hash, height, utxo⟩, active, tip, _⟩ := busy_shown
  exact ⟨heights, hash, height, active, fun _ => tip, utxo⟩

private theorem opened_unnamed : (openedNode storedHost).names = [] := by
  rw [storedHost_opened]
  rfl

theorem busyNode_names : busyNode.names = (openedNode storedHost).names := by
  obtain ⟨_, _, _, _, unnamed, _⟩ := busy_shown
  rw [unnamed, opened_unnamed]

theorem busyNode_unstored : busyNode.storage.blockIndex spendingHash = none := by
  obtain ⟨_, _, _, _, _, unstored, _⟩ := busy_shown
  exact unstored

/-- The transaction of the spend is its only one. -/
private theorem spending_lists {tx : Tx} (lists : Lists storedHost spendingBlock.json tx) :
    tx = spendingTx := by
  obtain ⟨fields, items, item, read, listed, member, parsed⟩ := lists
  obtain ⟨_, drafted⟩ := (checkBlock_ok.mp spending_passed).drafted
  cases Except.ok.inj (drafted.fields.symm.trans read)
  have txs : spendingBlock.json.get? "txs" = some (.array spendingBlock.txs) :=
    Json.get?_ofMembers _ _
  cases Json.array.inj (Option.some.inj (txs.symm.trans listed))
  cases List.mem_singleton.mp member
  have known : parseUserTx storedHost
      (spendJson 1 [⟨openingTxid, 1, [], []⟩] [⟨1, plainAddress⟩]) 2 = .ok spendingTx := by
    decide +kernel
  exact (Except.ok.inj (known.symm.trans parsed)).symm

theorem spending_alike :
    ReadsAlike storedHost sampleMoment (openedNode storedHost) busyNode spendingBlock.json := by
  refine ⟨fun _ _ => by rw [busyNode_names], ?_, ?_, ?_⟩
  · rintro id ⟨tx, lists, kind, _⟩
    rw [spending_lists lists] at kind
    exact absurd rfl kind
  · -- The spend has no signature: the owner of the output is no lower-case address.
    rintro owner ⟨draft, before, tx, after, input, found, drafted, split, member, signed, _⟩
    have known := checkDraft_ok.mpr (checkBlock_ok.mp spending_passed).drafted
    cases Except.ok.inj (known.symm.trans drafted)
    have inside : tx ∈ spendingChecked.draft.txs := by
      rw [split]
      exact List.mem_append_right _ List.mem_cons_self
    cases List.mem_singleton.mp inside
    cases List.mem_singleton.mp member
    exact absurd rfl signed
  · obtain ⟨_, _, _, _, _, _, fits⟩ := busy_shown
    have passed := checkBlock_ok.mp spending_passed
    have small := passed.fits
    rw [passed.stored] at small
    rw [fits, fitsWithNames, checkDraft_ok.mpr passed.drafted, opened_unnamed]
    dsimp only
    rw [passed.work]
    exact (decide_eq_true small).symm

/-- The spend gets one verdict, though only one of the nodes knows the header of a block
that was left again. -/
theorem submitblock_alike_spending :
    busyNode.storage.getHeaderByHash secondHash ≠
        (openedNode storedHost).storage.getHeaderByHash secondHash ∧
      (rpcSubmitblock storedHost sampleMoment false busyNode spendingBlock.json).2.isAccepted =
        (rpcSubmitblock storedHost sampleMoment false (openedNode storedHost)
          spendingBlock.json).2.isAccepted :=
  ⟨busy_shown.2.2.2.1, submitblock_alike busyNode_same spending_alike⟩

end Samples

end PiSecure
