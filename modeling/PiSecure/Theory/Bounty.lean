import PiSecure.Theory.Commitment
import PiSecure.Theory.Emission
import PiSecure.Theory.FlagRules
import PiSecure.Theory.FlagSources
import PiSecure.Theory.LateBlocks

/-! # What a bounty is worth

Every flag was made by a createflag transaction that the node read, and keeps its
bounty and its number of claims. So a claim releases the bounty that was locked,
as an integer; what it is worth depends on the two heights.
-/

namespace PiSecure

variable {host : Host}

/-! ## Makers of flags -/

/-- A flag as a createflag transaction makes it, up to its claims. -/
structure MadeBy (tx : Tx) (flag : Flag) : Prop where
  kind : tx.flagKind = .create
  txid : flag.txid = toHex tx.txid
  maxClaims : flag.maxClaims = tx.maxClaims
  bountyUnits : flag.bountyUnits = tx.bountyUnits

/-- What relates a flag to the transaction that made it, whatever is claimed later. -/
structure Origin (Made : Tx → Flag → Prop) : Prop where
  creates : ∀ {tx : Tx} (lock : UInt64), tx.flagKind = .create →
    Made tx { incomingFlag tx with escrow := lock }
  claims : ∀ {tx : Tx} {flag : Flag} (recipient txid : Text), Made tx flag →
    Made tx (FlagBook.recordClaim flag recipient txid)

/-- Every flag of a book is related to a known transaction. -/
def OriginBook (Made : Tx → Flag → Prop) (known : List Tx) (book : FlagBook) : Prop :=
  ∀ flag ∈ book, ∃ tx ∈ known, tx.Sized ∧ Made tx flag

namespace OriginBook

variable {Made : Tx → Flag → Prop} {known txs : List Tx} {book next : FlagBook}

theorem empty : OriginBook Made known [] := fun _ impossible => nomatch impossible

/-- A flag operation of a known transaction makes a flag, or records a claim on one. -/
theorem apply (made : OriginBook Made known book) (origin : Origin Made) {tx : Tx}
    (listed : tx ∈ known) (sized : tx.Sized) {height : Nat}
    (applied : applyFlagTx book tx height = .ok next) : OriginBook Made known next := by
  unfold applyFlagTx at applied
  split at applied
  next kind =>
    rcases FlagBook.create_ok applied with ⟨rfl, _⟩ | ⟨_, lock, _, rfl⟩
    · exact made
    · intro flag member
      rcases List.mem_append.mp member with older | isNew
      · exact made flag older
      · rw [List.mem_singleton.mp isNew]
        exact ⟨tx, listed, sized, origin.creates lock kind⟩
  · obtain ⟨flag, found, ⟨rfl, _⟩ | ⟨_, _, rfl⟩⟩ := FlagBook.claim_ok applied
    · exact made
    · intro other member
      rcases FlagBook.mem_replace member with rfl | older
      · obtain ⟨maker, makerListed, makerSized, makes⟩ := made flag (FlagBook.find_mem found)
        exact ⟨maker, makerListed, makerSized, origin.claims _ _ makes⟩
      · exact made other older
  · cases applied
    exact made

theorem grows (made : OriginBook Made known book) (origin : Origin Made) (listed : txs ⊆ known)
    (sized : ∀ tx ∈ txs, tx.Sized) (grown : Grows txs book next) : OriginBook Made known next := by
  induction grown with
  | refl => exact made
  | tail _ step ih =>
      obtain ⟨tx, member, height, applied⟩ := step
      exact ih.apply origin (listed member) (sized tx member) applied

end OriginBook

theorem madeBy_origin : Origin MadeBy where
  creates _ kind := ⟨kind, rfl, rfl, rfl⟩
  claims _ _ made := ⟨made.kind, made.txid, made.maxClaims, made.bountyUnits⟩

/-! ## What calls read can be told apart -/

section Sized

theorem mempoolTxs_sized (moment : Moment) (node : Node) :
    ∀ tx ∈ mempoolTxs host moment node, tx.Sized := by
  intro tx member
  unfold mempoolTxs orderTxs at member
  obtain ⟨index, _, placed⟩ := List.mem_filterMap.mp member
  obtain ⟨stored, _, pending⟩ := List.mem_filterMap.mp (List.mem_of_getElem? placed)
  unfold parsePending at pending
  split at pending
  · cases pending
  · split at pending
    · cases pending
    next parsed parses =>
      cases pending
      have sized := parseUserTx_sized parses
      exact ⟨⟨sized.front.version, sized.front.height, sized.front.inputs, sized.front.outputs,
        sized.front.addresses⟩, ⟨sized.suffix.register, sized.suffix.flag, sized.suffix.name,
        sized.suffix.address⟩⟩

theorem readable_sized {height : Nat} {items : List Json} :
    ∀ tx ∈ readable host height items, tx.Sized := by
  intro tx member
  obtain ⟨_, _, parses⟩ := readable_parsed member
  exact parseUserTx_sized parses

theorem readable_resolved_sized {height : Nat} {items : List Json} {names : NameTable}
    (sound : names.Sound) :
    ∀ tx ∈ (readable host height items).map (names.resolveOutputNames host), tx.Sized := by
  intro tx member
  obtain ⟨parsed, listed, rfl⟩ := List.mem_map.mp member
  obtain ⟨_, _, parses⟩ := readable_parsed listed
  exact resolveOutputNames_sized sound parses

theorem sentReads_sized {node : Node} (sound : node.names.Sound) (params : Json) :
    ∀ tx ∈ sentReads host node params, tx.Sized := by
  unfold sentReads
  split
  · exact readable_resolved_sized sound
  · exact fun _ impossible => nomatch impossible

theorem replayReads_sized (base : Node) (sound : base.names.Sound) (chain : List FoundBlock) :
    ∀ tx ∈ replayReads host base chain, tx.Sized := by
  intro tx member
  rcases List.mem_append.mp member with stored | reloaded
  · obtain ⟨item, _, listed⟩ := List.mem_flatMap.mp stored
    exact readable_sized tx listed
  · exact readable_resolved_sized ((applyChain_written host base chain).sound sound) tx reloaded

theorem txs_sized {accepted : Accepted host} (sound : accepted.node.names.Sound) :
    ∀ tx ∈ accepted.txs, tx.Sized := by
  intro tx member
  obtain ⟨payout, drafted⟩ := accepted.passes.drafted
  obtain ⟨item, parsed, parses, rfl⟩ := mem_readTxs drafted.txs member
  exact resolveOutputNames_sized sound parses

theorem reads_sized (host : Host) {node : Node} (sound : node.names.Sound) (call : Call) :
    ∀ tx ∈ reads host node call, tx.Sized := by
  cases call with
  | sendTransaction moment params =>
      intro tx member
      rcases List.mem_append.mp member with pending | sent
      · exact mempoolTxs_sized moment node tx pending
      · exact sentReads_sized sound params tx sent
  | submitBlock moment localPolicy params =>
      intro tx member
      obtain ⟨accepted, connected, confirmed⟩ := List.mem_flatMap.mp member
      exact txs_sized (connection_node connected ▸ sound) tx confirmed
  | replayChain moment tip => exact replayReads_sized (replayBase node) sound _
  | restart moment =>
      exact replayReads_sized (restartBase node)
        ((NameTable.written_loadFile node.reopen.names node.reopen.namesFile).sound
          NameTable.sound_empty) _
  | _ => exact fun _ impossible => nomatch impossible

end Sized

/-! ## Runs -/

/-- Every part of a call only reads known transactions. -/
def ReadsWithin (host : Host) (known : List Tx) (node : Node) (call : Call) : Prop :=
  (nodeMachine host).Permits (fun node part => reads host node part ⊆ known) node
    (parts host node call)

/-- **Origins.** In a run from a node without flags and names that only reads known
transactions, every flag is related to one of them, and so is every flag of the nodes on
which blocks were connected. -/
theorem origins_known {Made : Tx → Flag → Prop} (origin : Origin Made) {known : List Tx}
    {start node : Node} {calls : List Call} {log : List (Accepted host)}
    (unflagged : start.flags = []) (unnamed : start.names = [])
    (run : (nodeMachine host).Runs (ReadsWithin host known) start calls log node) :
    OriginBook Made known node.flags ∧ ∀ accepted ∈ log, OriginBook Made known accepted.node.flags ∧
      ∀ tx ∈ accepted.txs, tx ∈ known ∧ tx.Sized := by
  obtain ⟨pieces, ran⟩ := runs_of_parts (fun _ _ permitted => permitted) run
  clear run
  induction ran with
  | nil => exact ⟨unflagged.symm ▸ OriginBook.empty, fun _ impossible => nomatch impossible⟩
  | @call calls log state next call before permitted stepped ih =>
      obtain ⟨single, within⟩ := permitted
      have sized := reads_sized host (names_sound unnamed before) call
      refine ⟨?_, fun accepted member => ?_⟩
      · rcases step_grows single stepped with grown | made
        · exact ih.1.grows origin within sized grown
        · exact OriginBook.empty.grows origin within sized made
      · rcases List.mem_append.mp member with older | connected
        · exact ih.2 accepted older
        · obtain ⟨same, read⟩ := connections_single single connected
          exact ⟨same ▸ ih.1, fun tx confirmed =>
            ⟨within (read confirmed), sized tx (read confirmed)⟩⟩

/-! ## The worth of a release -/

/-- The units that the checks release to a transaction of a block, after the transactions
before it. -/
def released (accepted : Accepted host) (before : List Tx) (tx : Tx) : UInt64 :=
  claimRelease tx ((applyFlagTxs accepted.node.flags before accepted.height).toOption.getD [])
    (accepted.cb :: before)

/-- A claimflag transaction of an accepted block, with the flag that it claims. -/
structure Claims (accepted : Accepted host) (before : List Tx) (tx : Tx) (flag : Flag) : Prop where
  placed : ∃ after, accepted.txs = before ++ tx :: after
  kind : tx.flagKind = .claim
  found : ∃ book, applyFlagTxs accepted.node.flags before accepted.height = .ok book ∧
    book.find tx.flagId = some flag

/-- A claim releases the bounty of its flag. -/
theorem Claims.released_eq {accepted : Accepted host} {before : List Tx} {tx : Tx} {flag : Flag}
    (claims : Claims accepted before tx flag) : released accepted before tx = flag.bountyUnits := by
  obtain ⟨book, reached, found⟩ := claims.found
  unfold released claimRelease
  rw [reached, if_neg (not_not.mpr claims.kind), Except.toOption, Option.getD_some, found]

/-- The flag that a claim finds is related to a known transaction. -/
theorem Claims.origin {Made : Tx → Flag → Prop} (origin : Origin Made) {known : List Tx}
    {accepted : Accepted host} {before : List Tx} {tx : Tx} {flag : Flag}
    (claims : Claims accepted before tx flag) (made : OriginBook Made known accepted.node.flags)
    (listed : ∀ tx ∈ accepted.txs, tx ∈ known ∧ tx.Sized) :
    ∃ maker ∈ known, maker.Sized ∧ Made maker flag := by
  obtain ⟨after, split⟩ := claims.placed
  obtain ⟨book, reached, found⟩ := claims.found
  have earlier : ∀ tx ∈ before, tx ∈ known ∧ tx.Sized := fun tx member =>
    listed tx (by rw [split]; exact List.mem_append_left _ member)
  exact made.grows origin (fun tx member => (earlier tx member).1)
    (fun tx member => (earlier tx member).2) (Grows.applyAll reached) flag (FlagBook.find_mem found)

/-- A bounty is worth its part of the lock exactly when the two heights use one unit,
or when there is no bounty. -/
theorem worth_eq_iff {maxClaims : UInt32} {bountyUnits lock : UInt64}
    (locked : escrowLock maxClaims bountyUnits = .ok lock) (created claimed : Nat) :
    piOf bountyUnits claimed * maxClaims.toNat = piOf lock created ↔
      bountyUnits = 0 ∨ (created < piActivationHeight ↔ claimed < piActivationHeight) := by
  by_cases unpaid : bountyUnits = 0
  · have none : lock = 0 := by
      unfold escrowLock at locked
      rw [unpaid] at locked
      split at locked
      · exact (Except.ok.inj locked).symm
      · rw [if_neg fun both => both.1 rfl, UInt64.zero_mul] at locked
        exact (Except.ok.inj locked).symm
    rw [unpaid, none]
    simp [piOf]
  · have limited : 0 < maxClaims := by
      refine UInt32.pos_iff_ne_zero.mpr fun unlimited => ?_
      rw [escrowLock, if_pos unlimited, if_pos unpaid] at locked
      cases locked
    have positive : 0 < bountyUnits.toNat * maxClaims.toNat :=
      Nat.mul_pos (Nat.pos_of_ne_zero fun zero => unpaid (UInt64.toNat_inj.mp zero))
        (UInt32.lt_iff_toNat_lt.mp limited)
    rw [or_iff_right unpaid, piOf, piOf, escrowLock_toNat locked limited, Nat.mul_right_comm,
      Nat.mul_right_inj (Nat.ne_of_gt positive)]
    unfold piPerUnit
    by_cases early : created < piActivationHeight <;>
      by_cases soon : claimed < piActivationHeight <;>
      simp [early, soon]

/-- **The worth of a bounty.** In every run that only reads known transactions, no two of
which have one id: a claim of a confirmed flag releases one part of the pi that its
creation locked exactly when there is no bounty or both blocks are on the same side of
the activation height. -/
theorem bounty_worth_iff {known : List Tx} {start node : Node} {calls : List Call}
    {log : List (Accepted host)} (free : CollisionFree known) (unflagged : start.flags = [])
    (unnamed : start.names = [])
    (run : (nodeMachine host).Runs (ReadsWithin host known) start calls log node)
    {creation claim : Accepted host} (created : creation ∈ log) (accepted : claim ∈ log)
    {maker tx : Tx} {before : List Tx} {flag : Flag} (confirmed : maker ∈ creation.txs)
    (locks : maker.flagKind = .create) (claims : Claims claim before tx flag)
    (sameFlag : flag.txid = toHex maker.txid) :
    piOf (released claim before tx) claim.height * maker.maxClaims.toNat =
        piOf maker.escrowLock creation.height ↔
      maker.bountyUnits = 0 ∨
        (creation.height < piActivationHeight ↔ claim.height < piActivationHeight) := by
  obtain ⟨_, blocks⟩ := origins_known madeBy_origin unflagged unnamed run
  obtain ⟨listed, sized⟩ := (blocks creation created).2 maker confirmed
  obtain ⟨claimBook, claimTxs⟩ := blocks claim accepted
  obtain ⟨source, sourceListed, sourceSized, made⟩ := claims.origin madeBy_origin claimBook claimTxs
  have ids : source.txid = maker.txid := toHex_injective (made.txid.symm.trans sameFlag)
  have same := sourceSized.sameContent sized (free source sourceListed maker listed ids)
  have bounty : released claim before tx = maker.bountyUnits :=
    claims.released_eq.trans (made.bountyUnits.trans same.bountyUnits)
  have shape := sized.suffix.flag
  rw [Tx.FlagShape, locks] at shape
  rw [bounty]
  exact worth_eq_iff shape.2.2.2.2.2 creation.height claim.height

/-- A late block only reads its transactions. -/
theorem late_readsWithin {node : Node} {block : MinedBlock} {one : Accepted lateHost}
    (connected : connection lateHost sampleMoment false node block.json = [one])
    (listed : one.txs ⊆ [creationTx, claimTx]) :
    ReadsWithin lateHost [creationTx, claimTx] node (lateCall block) := by
  refine ⟨?_, trivial⟩
  change (connection lateHost sampleMoment false node block.json).flatMap Accepted.txs ⊆ _
  rw [connected, List.flatMap_singleton]
  exact listed

theorem late_free : CollisionFree [creationTx, claimTx] := by
  intro first firstIn second secondIn same
  simp only [List.mem_cons, List.not_mem_nil, or_false] at firstIn secondIn
  rcases firstIn with rfl | rfl <;> rcases secondIn with rfl | rfl <;>
    first | rfl | exact absurd same (by decide)

/-- The late run only reads its two transactions. -/
theorem late_reads {creation claim : Accepted lateHost} {final : Node}
    (created : connection lateHost sampleMoment false lateNode creationBlock.json = [creation])
    (claimed : connection lateHost sampleMoment false createdNode claimBlock.json = [claim])
    (creationIs : creation.checked = creationChecked) (claimIs : claim.checked = claimChecked)
    (stepped : stepNode lateHost lateNode (lateCall creationBlock) = some createdNode)
    (ended : stepNode lateHost createdNode (lateCall claimBlock) = some final) :
    (nodeMachine lateHost).Runs (ReadsWithin lateHost [creationTx, claimTx]) lateNode
      [lateCall creationBlock, lateCall claimBlock] [creation, claim] final := by
  have first : creation.txs = [creationTx] := by rw [Accepted.txs, creationIs]; rfl
  have second : claim.txs = [claimTx] := by rw [Accepted.txs, claimIs]; rfl
  exact late_run _ (late_readsWithin created (by simp [first]))
    (late_readsWithin claimed (by simp [second]))
    created claimed stepped ended

theorem late_claims {claim : Accepted lateHost} (node : claim.node = createdNode)
    (checked : claim.checked = claimChecked) : Claims claim [] claimTx lateFlag where
  placed := ⟨[], by rw [Accepted.txs, checked]; rfl⟩
  kind := rfl
  found := ⟨[lateFlag], by rw [node]; rfl, by decide⟩

theorem bounty_worth_iff_late : ∃ (creation claim : Accepted lateHost),
    creation.height = 2999 ∧ claim.height = 3000 ∧
      (piOf (released claim [] claimTx) claim.height * creationTx.maxClaims.toNat =
          piOf creationTx.escrowLock creation.height ↔
        creationTx.bountyUnits = 0 ∨
          (creation.height < piActivationHeight ↔ claim.height < piActivationHeight)) := by
  obtain ⟨creation, created, _, creationIs, stepped⟩ := creation_connected
  obtain ⟨claim, final, claimed, claimNode, claimIs, ended⟩ := claim_connected
  refine ⟨creation, claim, by rw [Accepted.height, creationIs]; rfl,
    by rw [Accepted.height, claimIs]; rfl, ?_⟩
  exact bounty_worth_iff late_free rfl rfl
    (late_reads created claimed creationIs claimIs stepped ended)
    List.mem_cons_self (List.mem_cons_of_mem _ List.mem_cons_self)
    (by rw [Accepted.txs, creationIs]; exact List.mem_cons_self) rfl
    (late_claims claimNode claimIs) rfl

/-- **A bounty that loses its worth.** A run in which a flag locks 10000 pi for two claims
just below the activation height, and a claim above it releases five pi. -/
theorem bounty_devalued :
    ∃ (host : Host) (start node : Node) (calls : List Call) (log : List (Accepted host)),
      start.flags = [] ∧ start.names = [] ∧
      (nodeMachine host).Runs (fun _ _ => True) start calls log node ∧
      ∃ creation ∈ log, ∃ claim ∈ log, ∃ maker ∈ creation.txs, ∃ before tx flag,
        maker.flagKind = .create ∧ Claims claim before tx flag ∧ flag.txid = toHex maker.txid ∧
        creation.height ≤ claim.height ∧
        piOf maker.escrowLock creation.height = 10000 ∧
        piOf (released claim before tx) claim.height * maker.maxClaims.toNat = 10 := by
  obtain ⟨creation, created, _, creationIs, stepped⟩ := creation_connected
  obtain ⟨claim, final, claimed, claimNode, claimIs, ended⟩ := claim_connected
  have heights : creation.height = 2999 ∧ claim.height = 3000 :=
    ⟨by rw [Accepted.height, creationIs]; rfl, by rw [Accepted.height, claimIs]; rfl⟩
  have claims := late_claims claimNode claimIs
  refine ⟨lateHost, lateNode, final, _, [creation, claim], rfl, rfl,
    late_run _ trivial trivial created claimed stepped ended, creation, List.mem_cons_self, claim,
    List.mem_cons_of_mem _ List.mem_cons_self, creationTx, ?_, [], claimTx, lateFlag, rfl, claims,
    rfl,
    ?_, ?_, ?_⟩
  · rw [Accepted.txs, creationIs]
    exact List.mem_cons_self
  · rw [heights.1, heights.2]
    decide
  · rw [heights.1]
    decide
  · rw [claims.released_eq, heights.2]
    decide

end PiSecure
