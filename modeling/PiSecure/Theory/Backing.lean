import PiSecure.Theory.Bounty

/-! # Escrow behind a flag

A flag names the createflag transaction that made it. The book of the node also holds the
flags of transactions that only wait in the mempool, so the flag that a claim finds is
backed exactly when that transaction was confirmed before.
-/

namespace PiSecure

variable {host : Host}

/-! ## Flags that are backed -/

/-- A flag as the transaction that makes it describes it. -/
structure Describes (tx : Tx) (flag : Flag) : Prop where
  kind : tx.flagKind = .create
  txid : flag.txid = toHex tx.txid
  id : flag.id = tx.flagId
  awardsPubkey : flag.awardsPubkey = tx.awardsPubkey
  maxClaims : flag.maxClaims = tx.maxClaims
  bountyUnits : flag.bountyUnits = tx.bountyUnits

theorem describes_origin : Origin Describes where
  creates _ kind := ⟨kind, rfl, rfl, rfl, rfl, rfl⟩
  claims _ _ made := ⟨made.kind, made.txid, made.id, made.awardsPubkey, made.maxClaims,
    made.bountyUnits⟩

/-- A transaction stands in a block after others. -/
def StandsIn (block : Accepted host) (front : List Tx) (tx : Tx) : Prop :=
  ∃ after, block.txs = front ++ tx :: after

/-- A transaction was confirmed before a place of an accepted block: by a block of the
active chain that the block extends, or earlier in the block itself. -/
def ConfirmedBefore (log : List (Accepted host)) (accepted : Accepted host) (before : List Tx)
    (block : Accepted host) (front : List Tx) (tx : Tx) : Prop :=
  StandsIn block front tx ∧
    ((block ∈ log ∧ accepted.node.storage.heightToHash[block.height]? = some block.hash) ∨
      (block = accepted ∧ front ++ [tx] <+: before))

/-- A flag is backed before a place of an accepted block: a createflag transaction that was
confirmed before made it, and passed the balance check with the escrow of all claims. -/
def Backed (log : List (Accepted host)) (accepted : Accepted host) (before : List Tx)
    (flag : Flag) : Prop :=
  ∃ block front tx, ConfirmedBefore log accepted before block front tx ∧ Describes tx flag ∧
    escrowLock tx.maxClaims tx.bountyUnits = .ok tx.escrowLock ∧
    checkSpendable block.node.storage.utxo tx block.height (block.cb :: front) 0 = .ok ()

/-- A createflag transaction of an accepted block passed the balance check with its lock. -/
theorem StandsIn.locked {block : Accepted host} {front : List Tx} {tx : Tx}
    (stands : StandsIn block front tx) (sized : tx.Sized) (kind : tx.flagKind = .create) :
    escrowLock tx.maxClaims tx.bountyUnits = .ok tx.escrowLock ∧
      checkSpendable block.node.storage.utxo tx block.height (block.cb :: front) 0 = .ok () := by
  obtain ⟨after, split⟩ := stands
  obtain ⟨book, _, _, _, _, passed⟩ := block.tx_passed split
  have shape := sized.suffix.flag
  rw [Tx.FlagShape, kind] at shape
  have released : claimRelease tx book (block.cb :: front) = 0 := if_pos (by rw [kind]; decide)
  exact ⟨shape.2.2.2.2.2, released ▸ passed.spendable⟩

/-- Every claim of an accepted block finds a flag. -/
theorem exists_claims {accepted : Accepted host} {before after : List Tx} {tx : Tx}
    (split : accepted.txs = before ++ tx :: after) (kind : tx.flagKind = .claim) :
    ∃ flag, Claims accepted before tx flag := by
  obtain ⟨applied, each⟩ := checkTxs_ok accepted.passes.txs
  obtain ⟨book, named, next, booked, reached, passed⟩ := each before tx after split
  have flagged := passed.flagged
  rw [applyFlagTx, kind] at flagged
  obtain ⟨flag, found, _⟩ := FlagBook.claim_ok flagged
  exact ⟨flag, ⟨after, split⟩, kind, book, reached, found⟩

/-- Transactions of one id describe the same flag. -/
theorem Describes.same {first second : Tx} {flag : Flag} (describes : Describes first flag)
    (same : SameContent first second) (named : toHex second.txid = flag.txid) :
    Describes second flag where
  kind := same.flagKind.symm.trans describes.kind
  txid := named.symm
  id := describes.id.trans same.flagId
  awardsPubkey := describes.awardsPubkey.trans same.awardsPubkey
  maxClaims := describes.maxClaims.trans same.maxClaims
  bountyUnits := describes.bountyUnits.trans same.bountyUnits

/-- **Escrow is backed** by what its flag names. In every run that only reads known
transactions, no two of which have one id: the flag that a claim of an accepted block
finds is backed exactly when the transaction whose id the flag keeps was confirmed
before. -/
theorem escrow_backed_iff {known : List Tx} {start : Node} {calls : List Call}
    {log : List (Accepted host)} {accepted : Accepted host} (free : CollisionFree known)
    (unflagged : start.flags = []) (unnamed : start.names = [])
    (run : (nodeMachine host).Runs (ReadsWithin host known) start calls log accepted.node)
    (read : accepted.txs ⊆ known) {before after : List Tx} {tx : Tx}
    (split : accepted.txs = before ++ tx :: after) (kind : tx.flagKind = .claim) :
    ∃ flag, Claims accepted before tx flag ∧
      (Backed log accepted before flag ↔
        ∃ block front maker, ConfirmedBefore log accepted before block front maker ∧
          toHex maker.txid = flag.txid) := by
  obtain ⟨flag, claims⟩ := exists_claims split kind
  obtain ⟨flags, blocks⟩ := origins_known describes_origin unflagged unnamed run
  have own : ∀ other ∈ accepted.txs, other ∈ known ∧ other.Sized := fun other member =>
    ⟨read member, txs_sized (names_sound unnamed run) other member⟩
  refine ⟨flag, claims, ?_, ?_⟩
  · rintro ⟨block, front, maker, confirmed, describes, _⟩
    exact ⟨block, front, maker, confirmed, describes.txid.symm⟩
  · rintro ⟨block, front, maker, confirmed, named⟩
    obtain ⟨makerIn, makerSized⟩ : maker ∈ known ∧ maker.Sized := by
      obtain ⟨⟨rest, stands⟩, ⟨listed, _⟩ | ⟨rfl, _⟩⟩ := confirmed
      · exact (blocks block listed).2 maker (by rw [stands]; simp)
      · exact own maker (by rw [stands]; simp)
    -- the transaction that made the flag has the id that the flag keeps
    obtain ⟨source, sourceIn, sourceSized, describes⟩ := claims.origin describes_origin flags own
    have ids : source.txid = maker.txid :=
      toHex_injective (describes.txid.symm.trans named.symm)
    have same := sourceSized.sameContent makerSized (free source sourceIn maker makerIn ids)
    have described := describes.same same named
    obtain ⟨locked, spendable⟩ := confirmed.1.locked makerSized described.kind
    exact ⟨block, front, maker, confirmed, described, locked, spendable⟩

theorem escrow_backed_iff_late : ∃ (creation claim : Accepted lateHost) (flag : Flag),
    Claims claim [] claimTx flag ∧
      (Backed [creation] claim [] flag ↔
        ∃ block front maker, ConfirmedBefore [creation] claim [] block front maker ∧
          toHex maker.txid = flag.txid) := by
  obtain ⟨creation, created, _, creationIs, stepped⟩ := creation_connected
  obtain ⟨claim, _, claimed, claimNode, claimIs, _⟩ := claim_connected
  have first : creation.txs = [creationTx] := by rw [Accepted.txs, creationIs]; rfl
  have second : claim.txs = [] ++ claimTx :: [] := by rw [Accepted.txs, claimIs]; rfl
  have run := run_of_connection (late_readsWithin created (by simp [first])) created stepped
  rw [← claimNode] at run
  obtain ⟨flag, backed⟩ := escrow_backed_iff late_free rfl rfl run
    (by rw [second]; exact List.subset_cons_self creationTx [claimTx]) second rfl
  exact ⟨creation, claim, flag, backed⟩

end PiSecure
