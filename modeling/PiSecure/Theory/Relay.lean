import PiSecure.Theory.LocalState
import PiSecure.Theory.StaleBlock

/-! # Passing a block on

A node that accepts a block sends the document under which it stores it. A node beside it
that gets the document accepts the same block, and stores the same document.
-/

namespace PiSecure

variable {host : Host}

/-! ## Writing a member again -/

namespace Json

/-- Writing a member that was just written changes nothing. -/
theorem assign_again (key : String) (value : Json) (members : List (String × Json)) :
    assign key value (assign key value members) = assign key value members := by
  induction members with
  | nil => rw [assign, assign, if_pos rfl]
  | cons first rest ih =>
      obtain ⟨name, old⟩ := first
      by_cases here : name = key
      · rw [assign, if_pos here, assign, if_pos rfl]
      · by_cases before : key < name
        · rw [assign, if_neg here, if_pos before, assign, if_pos rfl]
        · rw [assign, if_neg here, if_neg before, assign, if_neg here, if_neg before, ih]

/-- A member that is in its place stays there when another one is written. -/
theorem assign_kept {key other : String} {value written : Json} (apart : key ≠ other)
    {members : List (String × Json)} (settled : assign key value members = members) :
    assign key value (assign other written members) = assign other written members := by
  induction members with
  | nil => cases settled
  | cons first rest ih =>
      obtain ⟨name, old⟩ := first
      by_cases here : name = key
      · have same : old = value := by
          rw [assign, if_pos here] at settled
          exact (congrArg Prod.snd (List.cons.inj settled).1).symm
        subst here same
        rw [assign, if_neg apart]
        split
        next before =>
          rw [assign, if_neg apart.symm, if_neg (String.lt_asymm before), assign, if_pos rfl]
        · rw [assign, if_pos rfl]
      · by_cases before : key < name
        · rw [assign, if_neg here, if_pos before] at settled
          exact absurd (congrArg List.length settled) (Nat.succ_ne_self _)
        · rw [assign, if_neg here, if_neg before] at settled
          have later : assign key value rest = rest := (List.cons.inj settled).2
          rw [assign]
          split
          next same =>
            have still : ¬key < other := by
              rw [← same]
              exact before
            rw [assign, if_neg apart.symm, if_neg still, later]
          · split
            next front =>
              have still : ¬key < other := fun less => before (String.lt_trans less front)
              rw [assign, if_neg apart.symm, if_neg still, assign, if_neg here, if_neg before,
                later]
            · rw [assign, if_neg here, if_neg before, ih later]

/-- The members that are written with different keys are in their places. -/
theorem set_foldl_set {members : List (String × Json)} (distinct : (members.map Prod.fst).Nodup)
    (doc : Json) {member : String × Json} (listed : member ∈ members) :
    (members.foldl (fun doc member => doc.set member.1 member.2) doc).set member.1 member.2 =
      members.foldl (fun doc member => doc.set member.1 member.2) doc := by
  induction members using List.reverseRecOn with
  | nil => cases listed
  | append_singleton front last ih =>
      rw [List.map_append, List.nodup_append] at distinct
      rw [List.foldl_append, List.foldl_cons, List.foldl_nil]
      rcases List.mem_append.mp listed with earlier | isLast
      · have settled := ih distinct.1 earlier
        have apart : member.1 ≠ last.1 :=
          distinct.2.2 _ (List.mem_map_of_mem earlier) _ (List.mem_singleton.mpr rfl)
        generalize
          front.foldl (fun doc member => doc.set member.1 member.2) doc = built at settled ⊢
        cases built with
        | object all =>
            simp only [set, object.injEq] at settled ⊢
            exact assign_kept apart settled
        | _ => rfl
      · rw [List.mem_singleton.mp isLast]
        generalize front.foldl (fun doc member => doc.set member.1 member.2) doc = built
        cases built with
        | object all =>
            simp only [set]
            rw [assign_again]
        | _ => rfl

/-- Writing the same members again changes nothing. -/
theorem foldl_set_again {members : List (String × Json)} (distinct : (members.map Prod.fst).Nodup)
    (doc : Json) :
    members.foldl (fun doc member => doc.set member.1 member.2)
        (members.foldl (fun doc member => doc.set member.1 member.2) doc) =
      members.foldl (fun doc member => doc.set member.1 member.2) doc := by
  have settled := fun {member} => @set_foldl_set members distinct doc member
  generalize members.foldl (fun doc member => doc.set member.1 member.2) doc = built at settled ⊢
  clear distinct
  induction members with
  | nil => rfl
  | cons first rest ih =>
      rw [List.foldl_cons, settled List.mem_cons_self]
      exact ih fun listed => settled (List.mem_cons_of_mem _ listed)

end Json

/-! ## Names -/

section Names

variable {names : NameTable}

/-- A name that is found has its record under its own spelling, too. -/
theorem findName_spelled {name : Text} {rec : NameRec} (found : names.findName name = some rec) :
    names.findName rec.name = some rec := by
  have matched := List.find?_some found
  have same : foldName rec.name = foldName name := beq_iff_eq.mp matched
  unfold NameTable.findName at found ⊢
  rwa [same]

/-- A long address is the name of no record. -/
theorem findName_long (sound : names.Sound) {address : Text} (long : isLongAddress address = true) :
    names.findName address = none := by
  refine List.find?_eq_none.mpr fun rec member same => ?_
  have size : rec.name.size = address.size := by
    have sizes := congrArg Text.size (beq_iff_eq.mp same)
    rwa [foldName, foldName, size_lowerAscii, size_lowerAscii] at sizes
  have valid := (sound rec member).1
  simp only [validShortname, Bool.and_eq_true, decide_eq_true_eq] at valid
  have sized := (isLongAddress_parts long).1
  have short := valid.1.1.2
  omega

/-- A long address in lower case is a miner of its own. -/
theorem resolveMiner_long {address : Text} (long : isLongAddress address = true) :
    names.resolveMiner address = .ok (address, address) := by
  obtain ⟨sized, front, hexed⟩ := isLongAddress_parts long
  have nonempty : ¬(address.isEmpty = true ∨ address.size > 256) := by
    rintro (empty | large)
    · rw [List.isEmpty_iff.mp empty] at sized
      cases sized
    · omega
  have lower : lowerAscii "ps1".toList = "ps1".toList := rfl
  have same : lowerAscii (address.take 3) ++ lowerHex (address.drop 3) = address := by
    rw [front, hexed, lower, ← front, List.take_append_drop]
  unfold NameTable.resolveMiner
  dsimp only
  rw [if_neg nonempty, same, if_pos ⟨sized, by rw [front]; exact lower, long⟩]

/-- A miner that is found by name is found by the name of the record. -/
theorem resolveMiner_spelled (sound : names.Sound) {name : Text} {rec : NameRec}
    (found : names.findName name = some rec) :
    names.resolveMiner rec.name = .ok (rec.name, rec.address) := by
  have valid := (sound.findName found).1
  have bounds := valid
  simp only [validShortname, Bool.and_eq_true, decide_eq_true_eq] at bounds
  have short := bounds.1.1.2
  have long := bounds.1.1.1
  have nonempty : ¬(rec.name.isEmpty = true ∨ rec.name.size > 256) := by
    rintro (empty | large)
    · rw [List.isEmpty_iff.mp empty] at long
      cases long
    · omega
  have named : ¬(rec.name.size = 67 ∧ lowerAscii (rec.name.take 3) = "ps1".toList ∧
      isLongAddress (lowerAscii (rec.name.take 3) ++ lowerHex (rec.name.drop 3)) = true) := by
    rintro ⟨sized, _⟩
    omega
  unfold NameTable.resolveMiner
  dsimp only
  rw [if_neg nonempty, if_neg named, if_neg (not_not.mpr valid), findName_spelled found]

/-- The shown name of a miner is resolved to the same payout. -/
theorem submittedMiner_again (sound : names.Sound) {localPolicy : Bool}
    {wallet shown payout : Text}
    (mined : submittedMiner names localPolicy wallet = .ok (shown, payout)) :
    submittedMiner names false shown = .ok (shown, payout) := by
  unfold submittedMiner at mined
  split at mined
  next miner resolved =>
    cases mined
    have again : names.resolveMiner shown = .ok (shown, payout) := by
      unfold NameTable.resolveMiner at resolved
      dsimp only at resolved
      split at resolved
      · cases resolved
      split at resolved
      next long =>
        obtain ⟨first, second⟩ := Prod.mk.inj (Except.ok.inj resolved)
        rw [first] at second long
        obtain rfl := second
        exact resolveMiner_long long.2.2
      split at resolved
      · cases resolved
      split at resolved
      · cases resolved
      next rec found =>
        cases resolved
        exact resolveMiner_spelled sound found
    rw [submittedMiner, again]
  next why unresolved =>
    split at mined
    · cases mined
      rw [submittedMiner, unresolved]
      exact if_pos Bool.false_ne_true
    · split at mined
      · cases mined
      · cases mined

/-- Outputs with their names resolved have no names to resolve. -/
theorem resolveOutput_again (sound : names.Sound) (output : TxOut) :
    names.resolveOutput (names.resolveOutput output) = names.resolveOutput output := by
  unfold NameTable.resolveOutput
  cases found : names.findName output.address with
  | none =>
      dsimp only
      rw [found]
  | some rec =>
      dsimp only
      rw [findName_long sound (sound.findName found).2]

theorem resolveOutputNames_again (sound : names.Sound) (tx : Tx) :
    names.resolveOutputNames host (names.resolveOutputNames host tx) =
      names.resolveOutputNames host tx := by
  have outputs : (names.resolveOutputNames host tx).outputs =
      tx.outputs.map names.resolveOutput := by
    unfold NameTable.resolveOutputNames
    dsimp only
    split
    next same => exact same.symm
    · rfl
  have resolved : (names.resolveOutputNames host tx).outputs.map names.resolveOutput =
      (names.resolveOutputNames host tx).outputs := by
    rw [outputs, List.map_map]
    exact List.map_congr_left fun output _ => resolveOutput_again sound output
  generalize names.resolveOutputNames host tx = final at resolved ⊢
  rw [NameTable.resolveOutputNames]
  exact if_pos resolved

end Names

/-! ## The coinbase -/

section Coinbase

variable {payout : Text} {outs : List CbOut}

theorem submittedMiner_pays {names : NameTable} (sound : names.Sound) {localPolicy : Bool}
    {wallet shown : Text} (given : wallet.isEmpty = false)
    (mined : submittedMiner names localPolicy wallet = .ok (shown, payout)) : payout ≠ [] := by
  have long : ∀ {address : Text}, isLongAddress address = true → address ≠ [] := by
    rintro _ isLong rfl
    cases isLong
  unfold submittedMiner at mined
  split at mined
  next miner resolved =>
    cases mined
    unfold NameTable.resolveMiner at resolved
    dsimp only at resolved
    split at resolved
    · cases resolved
    split at resolved
    next isLong =>
      obtain ⟨_, second⟩ := Prod.mk.inj (Except.ok.inj resolved)
      exact long (second ▸ isLong.2.2)
    split at resolved
    · cases resolved
    split at resolved
    · cases resolved
    next rec found =>
      cases resolved
      exact long (sound.findName found).2
  · split at mined
    · cases mined
      rintro rfl
      cases given
    split at mined
    · cases mined
    · cases mined

/-- The outputs of a coinbase have addresses, those of the miner that of the payout. -/
theorem readCbOuts_ok (paid : payout ≠ []) {coinbase : Json}
    (read : readCbOuts payout coinbase = .ok outs) :
    ∀ out ∈ outs, out.address ≠ [] ∧ (out.role = "miner".toList → out.address = payout) := by
  unfold readCbOuts at read
  split at read
  · intro out member
    have each := mapM_eq_ok.mp read
    obtain ⟨index, below, rfl⟩ := List.mem_iff_getElem.mp member
    have readOne := each.get (each.length_eq ▸ below) below
    unfold readCbOut at readOne
    split at readOne
    · split at readOne
      · cases readOne
      next nonempty =>
        split at readOne
        · cases readOne
        next mine =>
          have entry : outs[index] = ⟨_, _, _⟩ := (Except.ok.inj readOne).symm
          rw [entry]
          exact ⟨fun empty => nonempty (List.isEmpty_iff.mpr empty),
            fun miner => not_not.mp fun foreign => mine ⟨miner, foreign⟩⟩
    · cases readOne
  · split at read
    · cases read
      exact List.forall_mem_singleton.mpr ⟨paid, fun _ => rfl⟩
    · cases read

/-- An output of nothing adds nothing. -/
theorem addPaid_zero {paid next : Paid} {out : CbOut} (zero : out.units = 0)
    (added : addPaid paid out = .ok next) : next = paid := by
  unfold addPaid at added
  rw [zero] at added
  simp only [UInt64.add_zero] at added
  split_ifs at added <;> cases added <;> rfl

theorem foldlM_addPaid_filter {paid final : Paid} (added : outs.foldlM addPaid paid = .ok final) :
    (outs.filter fun out => out.units != 0).foldlM addPaid paid = .ok final := by
  induction outs generalizing paid with
  | nil => exact added
  | cons out rest ih =>
      rw [List.foldlM_cons] at added
      obtain ⟨next, first, later⟩ := bind_eq_ok.mp added
      by_cases zero : out.units = 0
      · rw [addPaid_zero zero first] at later
        rw [List.filter_cons_of_neg (by simp [zero])]
        exact ih later
      · rw [List.filter_cons_of_pos (by simpa using zero), List.foldlM_cons]
        exact bind_eq_ok.mpr ⟨next, first, ih later⟩

/-- Outputs of nothing do not matter to the rules. -/
theorem checkPaid_filter {height : Nat} {emission : Emission} {fee : UInt64}
    (paid : checkPaid height emission fee outs = .ok ()) :
    checkPaid height emission fee (outs.filter fun out => out.units != 0) = .ok () := by
  simp only [checkPaid, bind_eq_ok, require_ok, refuse_ok] at paid ⊢
  obtain ⟨amounts, summed, done, capped, done', subsidy, validators⟩ := paid
  refine ⟨amounts, foldlM_addPaid_filter summed, done, capped, done', subsidy, ?_⟩
  rw [Bool.or_eq_true] at validators ⊢
  refine validators.imp_right fun all => ?_
  rw [List.all_eq_true] at all ⊢
  exact fun out listed => all out (List.mem_filter.mp listed).1

theorem filter_nonzero_again :
    (outs.filter fun out => out.units != 0).filter (fun out => out.units != 0) =
      outs.filter fun out => out.units != 0 := by
  rw [List.filter_filter]
  simp only [Bool.and_self]

end Coinbase

/-! ## Without the local policy -/

section Relaxed

variable {node : Node} {localPolicy : Bool} {height : Nat} {prior : List Tx}
    {staged flags : FlagBook}
  {names next : NameTable} {tx : Tx}

/-- An input that passes passes without the local policy. -/
theorem verifyInput_relaxed {wallets : Wallets} {utxo : UtxoSet} {message : Bytes} {input : TxIn}
    (verified : verifyInput host wallets utxo message localPolicy prior input = .ok ()) :
    verifyInput host wallets utxo message false prior input = .ok () := by
  cases localPolicy with
  | false => exact verified
  | true =>
      unfold verifyInput at verified ⊢
      split at verified
      · cases verified
      next found located =>
        dsimp only at verified ⊢
        split at verified
        · cases verified
        · rw [if_neg (by simp)]
          split at verified
          next unsigned =>
            rw [if_pos (.inl rfl)] at verified
            cases verified
          next signed =>
            rw [if_neg signed]
            exact verified

theorem verifyInputSignatures_relaxed {wallets : Wallets} {utxo : UtxoSet}
    (verified : verifyInputSignatures host wallets utxo tx localPolicy prior = .ok ()) :
    verifyInputSignatures host wallets utxo tx false prior = .ok () := by
  unfold verifyInputSignatures at verified ⊢
  split at verified
  · cases verified
  next spending =>
    rw [if_neg spending]
    exact forM_eq_ok.mpr fun input member =>
      verifyInput_relaxed (forM_eq_ok.mp verified input member)

/-- A registration of a name that is not reserved is checked the same way. -/
theorem admitRegister_relaxed (host : Host) (namesFile : Option Json) (utxo : UtxoSet)
    (prior : List Tx) (names : NameTable)
    (free : localPolicy = true → tx.reg = true → isReservedName tx.name = false) :
    admitRegister host namesFile utxo tx false prior names =
      admitRegister host namesFile utxo tx localPolicy prior names := by
  cases localPolicy with
  | false => rfl
  | true =>
      unfold admitRegister
      by_cases registers : tx.reg = true
      · rw [free rfl registers]
        simp only [Bool.false_eq_true, false_and, and_false]
      · rw [if_pos registers, if_pos registers]

theorem checkTx_relaxed (free : localPolicy = true → tx.reg = true → isReservedName tx.name = false)
    (passed : checkTx host node localPolicy height prior staged names tx = (next, .ok flags)) :
    checkTx host node false height prior staged names tx = (next, .ok flags) := by
  unfold checkTx at passed ⊢
  dsimp only at passed ⊢
  split at passed
  · cases passed
  · split at passed
    · cases passed
    next verified =>
      rw [verifyInputSignatures_relaxed verified, admitRegister_relaxed _ _ _ _ _ free]
      exact passed

theorem checkTxs_relaxed {txs : List Tx}
    (free : localPolicy = true → ∀ tx ∈ txs, tx.reg = true → isReservedName tx.name = false)
    (passed : checkTxs host node localPolicy height txs prior staged names = (next, .ok flags)) :
    checkTxs host node false height txs prior staged names = (next, .ok flags) := by
  induction txs generalizing prior staged names with
  | nil => exact passed
  | cons tx rest ih =>
      rw [checkTxs] at passed ⊢
      split at passed
      · cases passed
      next middle later checked =>
        rw [checkTx_relaxed (fun policy => free policy tx List.mem_cons_self) checked]
        exact ih (fun policy other member => free policy other (List.mem_cons_of_mem _ member))
          passed

end Relaxed

/-! ## The document as a submission -/

/-- A document that passes is accepted. -/
theorem acceptance_of_passed {moment : Moment} {localPolicy : Bool} {node : Node} {params : Json}
    {names : NameTable} {checked : Checked} (filled : isFilled params = true)
    (passed : checkBlock host moment localPolicy node params = (names, .ok checked)) :
    acceptance host moment localPolicy node params =
      some ⟨moment, localPolicy, node, params, names, checked, passed⟩ := by
  unfold acceptance
  cases params with
  | object members =>
      cases members with
      | nil => cases filled
      | cons member members =>
          dsimp only [asObjectParam]
          split
          next again =>
            cases passed.symm.trans again
            rfl
          next again =>
            cases passed.symm.trans again
  | _ => cases filled

namespace Accepted

variable (accepted : Accepted host)

/-- A node beside the one that accepts a block: it has the same active chain and the same
names, and agrees with it on the flags and the key files that the block reads. -/
structure Beside (other : Node) : Prop where
  same : SameActive accepted.node other
  names : other.names = accepted.node.names
  flags : AgreeOn (flagIds accepted.txs) accepted.node.flags other.flags
  keys : ∀ front tx after, accepted.txs = front ++ tx :: after →
    KeysAlike accepted.node other (accepted.cb :: front) tx

/-- A block that can be passed on: what is written for its transactions is within the limit
of the parser, and it registers no reserved name by a grant of its node. -/
structure Portable : Prop where
  sound : accepted.node.names.Sound
  small : ∀ tx ∈ accepted.txs, (txToJson tx).dumpSize ≤ kMaxTxJsonBytes
  free : accepted.localPolicy = true → ∀ tx ∈ accepted.txs, tx.reg = true →
    isReservedName tx.name = false

/-- The draft that is read from the document of an accepted block. -/
def relayed : Draft :=
  { accepted.checked.draft with
    fields := accepted.storedFields
    cbOuts := accepted.checked.draft.cbOuts.filter fun out => out.units != 0 }

theorem storedMembers_relayed (root digest : Digest) (names : NameTable) :
    storedMembers accepted.relayed root digest names =
      storedMembers accepted.checked.draft root digest names := by
  have coinbase : ∀ (shown : Text) (height : Nat) (emission : Emission) (cb : Tx),
      coinbaseBody shown height emission cb accepted.relayed.cbOuts =
        coinbaseBody shown height emission cb accepted.checked.draft.cbOuts := by
    intro shown height emission cb
    rw [coinbaseBody, coinbaseBody, relayed, filter_nonzero_again]
  rw [storedMembers, storedMembers, coinbase]
  rfl

/-- What the node writes into the document is in it already. -/
theorem storedBlock_relayed : storedBlock accepted.stored accepted.relayed accepted.checked.root
    accepted.hash accepted.names = accepted.stored := by
  have distinct : ((storedMembers accepted.checked.draft accepted.checked.root accepted.hash
      accepted.names).map Prod.fst).Nodup := by
    change ["version", "height", "prev_block_hash", "merkle_root", "timestamp", "difficulty",
      "nonce", "hash", "coinbase", "txs", "names", "hw_proof"].Nodup
    decide
  rw [storedBlock, storedMembers_relayed, stored_eq, storedBlock]
  exact Json.foldl_set_again distinct _

theorem checkBinding_relayed (other : Node) :
    checkBinding host other false accepted.storedFields accepted.prev =
      .ok accepted.checked.draft.binding := by
  obtain ⟨payout, drafted⟩ := accepted.passes.drafted
  have bound := drafted.binding
  have height : accepted.storedFields.height = accepted.checked.draft.fields.height := rfl
  unfold checkBinding at bound ⊢
  rw [height]
  split at bound
  next early =>
    rw [if_pos early]
    exact bound
  next late =>
    have proof : accepted.storedFields.proof.text? "challenge" =
          some accepted.checked.draft.binding.challengeHex ∧
        accepted.storedFields.proof.text? "serial" =
          some accepted.checked.draft.binding.serialText := by
      have kept : accepted.storedFields.proof = storedProof accepted.checked.draft := rfl
      rw [kept, storedProof, if_pos (Nat.not_lt.mp late), Json.text?, Json.text?,
        Json.get?_ofMembers, Json.get?_ofMembers]
      exact ⟨rfl, rfl⟩
    simp only [bind_eq_ok, pure_eq_ok, demand_ok, require_ok, Option.filter_eq_some_iff,
      beq_iff_eq] at bound
    obtain ⟨challenge, ⟨_, given⟩, raw, read, _, _, serial, ⟨_, plain⟩, _, binds, binding⟩ := bound
    rw [← binding] at proof ⊢
    rw [if_neg late]
    simp only [bind_eq_ok, pure_eq_ok, demand_ok, require_ok, Option.filter_eq_some_iff, beq_iff_eq,
      proof.1, proof.2, Bool.not_false, Bool.true_or]
    have nonempty : (!List.isEmpty (lowerHex challenge)) = true := by
      cases challenge with
      | nil => cases given
      | cons => rfl
    exact ⟨_, ⟨rfl, nonempty⟩, raw, by rw [lowerHex_lowerHex, read], (), trivial, serial,
      ⟨rfl, plain⟩, (), binds, by rw [lowerHex_lowerHex]⟩

variable {accepted} {other : Node}

/-- The transactions of the document are read as those of the block. -/
theorem Portable.readTxs_eq (portable : accepted.Portable) (beside : accepted.Beside other) :
    readTxs host other.names accepted.height accepted.stored = .ok accepted.txs := by
  obtain ⟨payout, drafted⟩ := accepted.passes.drafted
  have listed : accepted.stored.get? "txs" = some (.array (accepted.txs.map txToJson)) :=
    accepted.stored_get? _ _ rfl
  rw [readTxs, listed, beside.names]
  refine mapM_eq_ok.mpr ?_
  rw [List.forall₂_map_left_iff, List.forall₂_same]
  intro tx member
  obtain ⟨item, first, parses, resolved⟩ := mem_readTxs drafted.txs member
  have parsed := (parseUserTx_ok parses).1.resolve portable.sound
  have again : parseUserTx host (txToJson tx) accepted.height = .ok tx := by
    rw [resolved]
    exact parseUserTx_txToJson_of_small parsed (resolved ▸ portable.small tx member)
  rw [readTx, again]
  have settled : accepted.node.names.resolveOutputNames host tx = tx := by
    rw [resolved, resolveOutputNames_again portable.sound]
  exact congrArg Except.ok settled

/-- The coinbase of the document names the height of the block. -/
theorem storedCoinbase_height (accepted : Accepted host) :
    accepted.storedCoinbase.valueOr "height" Json.toUInt32? 0 =
      some (UInt64.ofNat accepted.height).toUInt32 := by
  have listed : accepted.storedCoinbase.get? "height" =
      some (.unsigned (UInt64.ofNat accepted.height)) := by
    rw [storedCoinbase, coinbaseBody, Json.get?_ofMembers]
    rfl
  rw [Json.valueOr_of_get? listed]
  rfl

/-- The checks before the transactions pass on a node beside the first one. -/
theorem Portable.drafted (portable : accepted.Portable) (beside : accepted.Beside other)
    {moment : Moment} (inTime : accepted.checked.draft.fields.timestamp ≤ moment.now + 120) :
    ∃ payout, Drafted host moment false other accepted.stored accepted.relayed payout := by
  obtain ⟨payout, drafted⟩ := accepted.passes.drafted
  have pays := submittedMiner_pays portable.sound accepted.fieldsRead.wallet.2.1 drafted.miner
  have outs := readCbOuts_ok pays drafted.cbOuts
  obtain ⟨_, linked, height⟩ := checkLink_ok.mp drafted.link
  obtain ⟨difficulty, parent, _, _⟩ := checkStamp_ok.mp drafted.stamp
  obtain ⟨cb, paying, _⟩ := checkCoinbase_ok.mp drafted.cb
  refine ⟨payout, readFields_ok.mpr accepted.stored_fieldsRead, ?_, ?_,
    accepted.checkBinding_relayed other, ?_, portable.readTxs_eq beside, ?_,
    checkPaid_filter drafted.paid, ?_⟩
  · rw [beside.names]
    exact submittedMiner_again portable.sound drafted.miner
  · rw [beside.same.checkLink]
    exact checkLink_ok.mpr ⟨fromHex_toHex _, linked, height⟩
  · rw [beside.same.checkStamp]
    exact checkStamp_ok.mpr ⟨difficulty, parent, inTime, _, accepted.storedCoinbase_height,
      accepted.toUInt32_height⟩
  · exact readCbOuts_coinbaseBody (fun out member _ => (outs out member).1)
      (fun out member => (outs out member).2) _ _ _ _
  · refine checkCoinbase_ok.mpr ⟨?_, paying, fun txid named => ?_⟩
    · change accepted.cb = coinbaseFrom host accepted.height _
      rw [accepted.cb_eq, coinbaseFrom, coinbaseFrom, relayed, filter_nonzero_again]
    · have listed : accepted.storedCoinbase.text? "txid" = some (toHex accepted.cb.txid) :=
        coinbaseBody_txid _ _ _ _ _
      exact (Option.some.inj (listed.symm.trans named)).symm

/-- The transactions pass on a node beside the first one, and leave the names. -/
theorem Portable.checkTxs_eq (portable : accepted.Portable) (beside : accepted.Beside other) :
    accepted.names = accepted.node.names ∧ ∃ flags,
      checkTxs host other false accepted.height accepted.txs [accepted.cb] other.flags other.names =
        (other.names, .ok flags) := by
  have passed := checkTxs_relaxed portable.free accepted.passes.txs
  have alike : TxsAlike accepted.node other (flagIds accepted.txs) [accepted.cb] accepted.txs :=
    ⟨fun tx _ _ => by rw [beside.names],
      fun tx member kind => List.mem_map_of_mem (List.mem_filter.mpr ⟨member, decide_eq_true kind⟩),
      beside.keys⟩
  obtain ⟨result, again, first, second, ended⟩ := @checkTxs_alike host _ _
    accepted.height _ _ _ _ beside.same _ beside.flags alike
  have same := passed.symm.trans first
  refine ⟨congrArg Prod.fst same, ?_⟩
  have ok := congrArg Prod.snd same
  cases ended with
  | error reason => cases ok
  | ok agree => exact ⟨_, second⟩

/-- The document passes every check on a node beside the first one. -/
theorem Portable.passed (portable : accepted.Portable) (beside : accepted.Beside other)
    {moment : Moment} (inTime : accepted.checked.draft.fields.timestamp ≤ moment.now + 120) :
    ∃ flags, Passed host moment false other accepted.stored other.names
      ⟨accepted.relayed, accepted.checked.root, accepted.hash, accepted.stored, flags⟩ := by
  obtain ⟨names, flags, checked⟩ := portable.checkTxs_eq beside
  obtain ⟨root, digest, _, algorithm, _, work⟩ := checkWork_ok.mp accepted.passes.work
  have kept : algorithmOf accepted.stored = algorithmOf accepted.block := by
    have untouched : Json.lookup "pihash" (storedMembers accepted.checked.draft
        accepted.checked.root accepted.hash accepted.names).reverse = none := rfl
    rw [algorithmOf, algorithmOf, Json.object?, Json.object?, stored_eq, storedBlock,
      Json.get?_foldl_set _ accepted.block_isObject, untouched, Option.none_or]
  refine ⟨flags, portable.drafted beside inTime, checked, ?_, ?_, accepted.passes.fits⟩
  · exact checkWork_ok.mpr ⟨root, digest, fromHex_toHex _, fun late => kept.trans (algorithm late),
      fromHex_toHex _, work⟩
  · have settled := accepted.storedBlock_relayed
    rw [names, ← beside.names] at settled
    exact settled.symm

/-- **A block is passed on.** When a node accepts a block, a node beside it accepts the
document of the block from it: under the same hash and header, with the same transactions,
and it stores, and sends, the same document. -/
theorem relayed_block (portable : accepted.Portable) (beside : accepted.Beside other)
    {moment : Moment} (inTime : accepted.checked.draft.fields.timestamp ≤ moment.now + 120) :
    ∃ again, acceptance host moment false other accepted.stored = some again ∧
      again.hash = accepted.hash ∧ again.header = accepted.header ∧
      again.txs = accepted.txs ∧ again.stored = accepted.stored := by
  obtain ⟨flags, passed⟩ := portable.passed beside inTime
  have filled : isFilled accepted.stored = true := by
    obtain ⟨member, members, whole⟩ := accepted.stored_filled
    rw [whole]
    rfl
  exact ⟨_, acceptance_of_passed filled (checkBlock_ok.mpr passed), rfl, rfl, rfl, rfl⟩

/-- The node beside the first one connects the document of a block that it does not have. -/
theorem Portable.connected (portable : accepted.Portable) (beside : accepted.Beside other)
    {moment : Moment} (inTime : accepted.checked.draft.fields.timestamp ≤ moment.now + 120)
    (fresh : other.storage.blockIndex accepted.hash = none) :
    ∃ again flags, connection host moment false other accepted.stored = [again] ∧
      again.stored = accepted.stored ∧
      (rpcSubmitblock host moment false other accepted.stored).1 =
        connectBlock host moment false other
          ⟨accepted.relayed, accepted.checked.root, accepted.hash, accepted.stored, flags⟩ := by
  obtain ⟨flags, passed⟩ := portable.passed beside inTime
  have filled : isFilled accepted.stored = true := by
    obtain ⟨member, members, whole⟩ := accepted.stored_filled
    rw [whole]
    rfl
  obtain ⟨again, one, _, checked, next⟩ :=
    connection_of_passed filled (checkBlock_ok.mpr passed) fresh
  exact ⟨again, flags, one, by rw [Accepted.stored, checked], next⟩

end Accepted

/-- The acceptance of the spend. -/
def spendingAccepted : Accepted storedHost :=
  ⟨sampleMoment, false, openedNode storedHost, spendingBlock.json, [], spendingChecked,
    spending_passed⟩

theorem spendingAccepted_portable : spendingAccepted.Portable := by
  refine ⟨?_, ?_, fun localPolicy => nomatch localPolicy⟩
  · change (openedNode storedHost).names.Sound
    rw [storedHost_opened]
    exact NameTable.sound_empty
  · intro tx member
    cases List.mem_singleton.mp member
    decide +kernel

/-- A node on the same chain with the same names is beside this one, whatever flags wait on
it and whatever key files it has. -/
theorem spendingAccepted_beside {other : Node} (same : SameActive (openedNode storedHost) other)
    (names : other.names = (openedNode storedHost).names) : spendingAccepted.Beside other := by
  refine ⟨same, names, fun _ listed => absurd listed List.not_mem_nil, ?_⟩
  intro front tx after split input member signed
  have inside : tx ∈ spendingAccepted.txs := by
    rw [split]
    exact List.mem_append_right _ List.mem_cons_self
  cases List.mem_singleton.mp inside
  cases List.mem_singleton.mp member
  exact absurd rfl signed

theorem spendingAccepted_inTime :
    spendingAccepted.checked.draft.fields.timestamp ≤ sampleMoment.now + 120 := by
  change spendingChecked.draft.fields.timestamp ≤ _
  decide +kernel

theorem relayed_block_spending :
    ∃ (accepted : Accepted storedHost) (other : Node) (moment : Moment),
      accepted.txs = [spendingTx] ∧ accepted.Portable ∧ accepted.Beside other ∧
      accepted.checked.draft.fields.timestamp ≤ moment.now + 120 ∧
      ∃ again, acceptance storedHost moment false other accepted.stored = some again ∧
        again.hash = accepted.hash ∧ again.header = accepted.header ∧
        again.txs = accepted.txs ∧ again.stored = accepted.stored := by
  have beside : spendingAccepted.Beside busyNode :=
    spendingAccepted_beside busyNode_same busyNode_names
  exact ⟨spendingAccepted, busyNode, sampleMoment, rfl, spendingAccepted_portable, beside,
    spendingAccepted_inTime,
    Accepted.relayed_block spendingAccepted_portable beside spendingAccepted_inTime⟩

end PiSecure
