import PiSecure.Theory.Duplicate
import PiSecure.Theory.Forks

/-! # What a restart finds

A restart applies the chain of the highest stored block. That is the chain of
the node as long as every adoption either stores a block above the old tip and
accepts all its blocks, or does neither.
-/

namespace PiSecure

variable {host : Host}

/-! ## The leading chain -/

/-- A chain whose last block is the highest of the log; the empty chain of an
empty log. -/
def Leading (log : List (Accepted host)) (chain : List (Accepted host × Nat)) : Prop :=
  match chain.getLast? with
  | none => log = []
  | some place => Highest log place.2 place.1

theorem leading_concat {log : List (Accepted host)} {front : List (Accepted host × Nat)}
    {place : Accepted host × Nat} :
    Leading log (front ++ [place]) ↔ Highest log place.2 place.1 := by
  rw [Leading, List.getLast?_append, List.getLast?_singleton]
  exact Iff.rfl

namespace Forked

variable {log : List (Accepted host)} {node : Node} {chain : List (Accepted host × Nat)}

/-- Every stored block is at most as high as a leading chain is long. -/
theorem height_le (forked : Forked log node chain) (leading : Leading log chain) :
    ∀ accepted ∈ log, accepted.height ≤ chain.length := by
  intro accepted member
  rcases List.eq_nil_or_concat chain with rfl | ⟨front, place, rfl⟩
  · cases leading
    cases member
  · rw [List.concat_eq_append] at forked leading ⊢
    obtain ⟨index, below, rfl⟩ := List.mem_iff_getElem.mp member
    have bound := ((leading_concat.mp leading).above index _ (List.getElem?_eq_getElem below)).1
    rw [forked.branch.linked.last_height] at bound
    rwa [List.length_append, List.length_singleton]

/-- The tip of a node is the last block of its chain. -/
theorem tipOf_eq (forked : Forked log node chain) :
    tipOf node.storage = chain.getLast?.map fun place => place.1.hash := by
  have active := forked.on.active
  have shaped := forked.grounded.sourced.traced.shaped
  have tip := forked.on.tip shaped
  rw [Storage.tip_chainIndex, expectPrev] at tip
  rcases List.eq_nil_or_concat chain with rfl | ⟨front, place, rfl⟩
  · change node.storage.heightToHash = [] at active
    rw [tipOf, Storage.hasTip, active]
    rfl
  · rw [List.concat_eq_append, List.map_append, List.map_singleton] at active tip
    have tipped : node.storage.hasTip = true := by
      rw [Storage.hasTip, active, activeHashes_append]
      simp
    rw [if_pos tipped, tipHash_append] at tip
    rw [tipOf, if_pos tipped, tip, List.concat_eq_append, List.getLast?_append,
      List.getLast?_singleton]
    rfl

/-- Blocks that reach above everything stored before lead. -/
theorem leading_grown {older more : List (Accepted host)} {chain grown : List (Accepted host × Nat)}
    (forked : Forked (older ++ more) node (chain ++ grown)) (same : grown.map Prod.fst = more)
    (limit : Nat) (below : ∀ accepted ∈ older, accepted.height ≤ limit)
    (above : ∃ accepted ∈ more, limit < accepted.height) :
    Leading (older ++ more) (chain ++ grown) := by
  obtain ⟨highest, member, high⟩ := above
  rcases List.eq_nil_or_concat grown with rfl | ⟨front, place, rfl⟩
  · rw [← same] at member
    cases member
  rw [List.concat_eq_append, List.map_append, List.map_singleton] at same
  rw [List.concat_eq_append, ← List.append_assoc] at forked ⊢
  have tall := forked.branch.linked.last_height
  have height : ∀ accepted ∈ front.map Prod.fst, accepted.height < place.1.height := by
    intro accepted inside
    obtain ⟨index, bound, rfl⟩ := List.mem_iff_getElem.mp inside
    have listed : ((chain ++ front ++ [place]).map Prod.fst)[chain.length + index]? =
        some (front.map Prod.fst)[index] := by
      rw [List.append_assoc, List.map_append, List.getElem?_append_right
        (by rw [List.length_map]; exact Nat.le_add_right _ _), List.length_map,
        Nat.add_sub_cancel_left, List.map_append, List.getElem?_append_left bound,
        List.getElem?_eq_getElem bound]
    rw [forked.branch.linked.height listed, tall, List.length_append]
    rw [List.length_map] at bound
    omega
  have beyond : limit < place.1.height := by
    rw [← same] at member
    rcases List.mem_append.mp member with inside | isLast
    · exact Nat.lt_trans high (height highest inside)
    · rw [← List.mem_singleton.mp isLast]
      exact high
  have lead : Highest (older ++ front.map Prod.fst ++ [place.1])
      (older ++ front.map Prod.fst).length place.1 := by
    refine Highest.of_above fun block member => ?_
    rcases List.mem_append.mp member with inside | isNew
    · exact Nat.lt_of_le_of_lt (below block inside) beyond
    · exact height block isNew
  have whole : older ++ more = older ++ front.map Prod.fst ++ [place.1] := by
    rw [← same, List.append_assoc]
  have listed := forked.branch.listed place
    (List.mem_append_right _ (List.mem_singleton_self _))
  have index : place.2 = (older ++ front.map Prod.fst).length := by
    have distinct := forked.distinct
    rw [whole] at listed distinct
    obtain ⟨first, firstIs⟩ := List.getElem?_eq_some_iff.mp listed
    obtain ⟨second, secondIs⟩ := List.getElem?_eq_some_iff.mp lead.listed
    refine (@List.Nodup.getElem_inj_iff _ _ distinct _ ?_ _ ?_).mp ?_
    · rwa [List.length_map]
    · rwa [List.length_map]
    · rw [List.getElem_map, List.getElem_map, firstIs, secondIs]
  rw [leading_concat, whole, index]
  exact lead

/-- Blocks that do not reach above the leading chain leave it in the lead. -/
theorem leading_kept {more : List (Accepted host)} (forked : Forked log node chain)
    (leading : Leading log chain) (nonempty : chain ≠ [])
    (lower : ∀ accepted ∈ more, accepted.height ≤ chain.length) :
    Leading (log ++ more) chain := by
  obtain ⟨front, place, rfl⟩ := (List.eq_nil_or_concat chain).resolve_left nonempty
  rw [List.concat_eq_append] at forked leading lower ⊢
  refine leading_concat.mpr ((leading_concat.mp leading).keep fun block member => ?_)
  have bound := lower block member
  rwa [List.length_append, List.length_singleton, ← forked.branch.linked.last_height] at bound

/-! ## Steps -/

/-- A submission keeps the node where it is or extends its chain. -/
theorem submit (forked : Forked log node chain) (moment : Moment) (localPolicy : Bool)
    (params : Json)
    (free : CollisionFree (logTxs (log ++ connection host moment localPolicy node params))) :
    ∃ grown, grown.map Prod.fst = connection host moment localPolicy node params ∧
      Forked (log ++ connection host moment localPolicy node params)
        (rpcSubmitblock host moment localPolicy node params).1 (chain ++ grown) := by
  rcases submission_cases host moment localPolicy node params with
    ⟨none, names, written, same⟩ | ⟨accepted, passed, fresh, one, connected⟩
  · rw [none, same]
    refine ⟨[], rfl, ?_⟩
    rw [List.append_nil, List.append_nil]
    exact forked.renamed written
  · rw [one] at free
    rw [one, connected]
    exact ⟨[(accepted, log.length)], rfl, forked.connect free passed fresh⟩

/-- Submitting the blocks of a peer extends the chain by those that connect. -/
theorem adoptBlocks (forked : Forked log node chain) (moments : Nat → Moment) (turn : Nat)
    (blocks : List Json)
    (free : CollisionFree (logTxs (log ++ adoptConnections host moments turn node blocks))) :
    ∃ grown, grown.map Prod.fst = adoptConnections host moments turn node blocks ∧
      Forked (log ++ adoptConnections host moments turn node blocks)
        (PiSecure.adoptBlocks host moments turn node blocks).1 (chain ++ grown) := by
  induction blocks generalizing log node turn chain with
  | nil =>
      refine ⟨[], rfl, ?_⟩
      rw [adoptConnections, List.append_nil, List.append_nil]
      exact forked
  | cons block rest ih =>
      rw [adoptConnections, ← List.append_assoc] at free
      obtain ⟨one, same, first⟩ := forked.submit (moments turn) false block free.front
      rw [adoptConnections, PiSecure.adoptBlocks]
      rcases outcome : rpcSubmitblock host (moments turn) false node block with ⟨next, verdict⟩
      rw [outcome] at first free
      cases verdict with
      | accepted hash height duplicate =>
          dsimp only at free first ⊢
          obtain ⟨others, sameRest, later⟩ := ih first (turn + 1) free
          refine ⟨one ++ others, ?_, ?_⟩
          · rw [List.map_append, same, sameRest]
          · rw [← List.append_assoc, ← List.append_assoc]
            exact later
      | refused refusal =>
          refine ⟨one, ?_, ?_⟩
          · rw [same, List.append_nil]
          · rw [List.append_nil]
            cases refusal <;> exact first

/-- Where the blocks of a peer are submitted: on the node or after a replay. -/
theorem start (forked : Forked log node chain)
    (proper : ∀ accepted ∈ log, accepted.hash ≠ Digest.zero)
    (readsBack : ∀ accepted ∈ log, ReadsBack accepted) {moment : Moment} {ancestor : Digest}
    {blocks : List Json} {based : Node × Status}
    (started : adoptionStart host moment node ancestor blocks = .ok based) :
    based = (node, .failed) ∨
      based.2 = .done ∧ ∃ front place, Forked log based.1 (front ++ [place]) := by
  unfold adoptionStart at started
  split at started
  · cases started
  · split at started
    · cases started
    · split at started
      · cases started
      · split at started
        · cases started
        · split at started
          next isTip =>
            cases started
            rcases List.eq_nil_or_concat chain with rfl | ⟨front, place, rfl⟩
            · rw [forked.tipOf_eq] at isTip
              cases isTip
            · rw [List.concat_eq_append] at forked
              exact .inr ⟨rfl, front, place, forked⟩
          · cases started
            rcases forked.replay_cases proper readsBack moment ancestor with
              stays | ⟨final, front, place, done, _, moved⟩
            · exact .inl stays
            · rw [done]
              exact .inr ⟨rfl, front, place, moved⟩

end Forked

/-- What keeps an adoption in line with the rule of a restart: it stores a block
above the old tip exactly when it accepts all its blocks, and it returns.
Submissions always do. -/
def keepsLead (host : Host) (node : Node) : Call → Prop
  | .submitBlock _ _ _ => True
  | .adoptPeerChain moments ancestor blocks =>
      ∀ based, adoptionStart host (moments 0) node ancestor blocks = .ok (based, .done) →
        (adoptBlocks host moments 1 based blocks).2 ≠ .thrown ∧
          ((adoptBlocks host moments 1 based blocks).2 = .done ↔
            ∃ accepted ∈ adoptConnections host moments 1 based blocks,
              node.storage.bestHeight < accepted.height)
  | _ => False

/-- A node on the leading one of its branches. -/
def Lead (log : List (Accepted host)) (node : Node) : Prop :=
  ∃ chain, Forked log node chain ∧ Leading log chain

namespace Lead

variable {log : List (Accepted host)} {node : Node}

/-- A submission keeps the lead: a connected block is above everything. -/
theorem submit (lead : Lead log node) (moment : Moment) (localPolicy : Bool) (params : Json)
    (free : CollisionFree (logTxs (log ++ connection host moment localPolicy node params))) :
    Lead (log ++ connection host moment localPolicy node params)
      (rpcSubmitblock host moment localPolicy node params).1 := by
  obtain ⟨chain, forked, leading⟩ := lead
  obtain ⟨grown, same, next⟩ := forked.submit moment localPolicy params free
  refine ⟨chain ++ grown, next, ?_⟩
  rcases submission_cases host moment localPolicy node params with
    ⟨none, _⟩ | ⟨accepted, passed, _, one, _⟩
  · rw [none] at same ⊢
    rw [List.map_eq_nil_iff.mp same, List.append_nil, List.append_nil]
    exact leading
  · refine next.leading_grown same chain.length (forked.height_le leading) ?_
    rw [one]
    refine ⟨accepted, List.mem_singleton_self _, ?_⟩
    rw [forked.grounded.sourced.traced.above passed, forked.on.best, List.length_map]
    exact Nat.lt_succ_self _

/-- An adoption in line with the restart keeps the lead. -/
theorem adopt (lead : Lead log node) (moments : Nat → Moment) (ancestor : Digest)
    (blocks : List Json) (fits : keepsLead host node (.adoptPeerChain moments ancestor blocks))
    (free : CollisionFree (logTxs (log ++ adoptionConnections host moments node ancestor blocks)))
    (proper : ∀ accepted ∈ log ++ adoptionConnections host moments node ancestor blocks,
      accepted.hash ≠ Digest.zero)
    (readsBack : ∀ accepted ∈ log ++ adoptionConnections host moments node ancestor blocks,
      ReadsBack accepted) :
    Lead (log ++ adoptionConnections host moments node ancestor blocks)
      (rpcAdoptPeerChain host moments node ancestor blocks).1 := by
  have whole : Lead log node := lead
  obtain ⟨chain, forked, leading⟩ := lead
  have best : node.storage.bestHeight = chain.length := by
    rw [forked.on.best, List.length_map]
  unfold keepsLead at fits
  unfold rpcAdoptPeerChain
  unfold adoptionConnections at free proper readsBack ⊢
  rcases started : adoptionStart host (moments 0) node ancestor blocks with status | ⟨based, status⟩
  · rw [List.append_nil]
    exact whole
  have begun := forked.start
    (fun accepted member => proper accepted (List.mem_append_left _ member))
    (fun accepted member => readsBack accepted (List.mem_append_left _ member)) started
  rw [started] at free proper readsBack
  rcases begun with stays | ⟨done, front, place, moved⟩
  · cases stays
    dsimp only
    rw [List.append_nil]
    exact whole
  dsimp only at done moved
  subst done
  obtain ⟨returns, agrees⟩ := fits based started
  dsimp only at free proper readsBack ⊢
  obtain ⟨grown, same, next⟩ := moved.adoptBlocks moments 1 blocks free
  rcases outcome : adoptBlocks host moments 1 based blocks with ⟨final, status⟩
  rw [outcome] at next returns agrees
  dsimp only at next returns agrees
  cases status with
  | done =>
      have kept : (settleAdoption host (moments (blocks.length + 1)) (tipOf node.storage) blocks
          (final, .done)).1 = final := by
        unfold settleAdoption
        dsimp only
        split <;> rfl
      rw [kept]
      refine ⟨_, next, next.leading_grown same _ (forked.height_le leading) ?_⟩
      rw [← best]
      exact agrees.mp rfl
  | failed =>
      have below : ∀ accepted ∈ adoptConnections host moments 1 based blocks,
          accepted.height ≤ chain.length := by
        intro accepted member
        by_contra high
        rw [← best] at high
        cases agrees.mpr ⟨accepted, member, Nat.lt_of_not_le high⟩
      have nonempty : chain ≠ [] := by
        rintro rfl
        cases leading
        have listed := moved.branch.listed place
          (List.mem_append_right _ (List.mem_singleton_self _))
        cases listed
      have keptLead := forked.leading_kept leading nonempty below
      obtain ⟨frontOld, tip, rfl⟩ := (List.eq_nil_or_concat chain).resolve_left nonempty
      rw [List.concat_eq_append] at forked keptLead
      obtain ⟨restored, replayed, back⟩ :=
        next.replay proper readsBack (moments (blocks.length + 1))
        (forked.branch.grow (adoptConnections host moments 1 based blocks))
      have oldTip : tipOf node.storage = some tip.1.hash := by
        rw [forked.tipOf_eq, List.getLast?_append, List.getLast?_singleton]
        rfl
      rw [oldTip, settleAdoption, replayed]
      exact ⟨_, back, keptLead⟩
  | thrown => exact absurd rfl returns

/-- A run whose adoptions are in line with the restart keeps the lead. -/
theorem run {wallets : Wallets} {calls : List Call}
    (ran : (nodeMachine host).Runs (keepsLead host) (Node.empty wallets) calls log node)
    (free : CollisionFree (logTxs log))
    (proper : ∀ accepted ∈ log, accepted.hash ≠ Digest.zero)
    (readsBack : ∀ accepted ∈ log, ReadsBack accepted) : Lead log node := by
  induction ran with
  | nil => exact ⟨[], Forked.empty wallets, rfl⟩
  | @call calls log state next call before fits stepped ih =>
      have lead := ih free.front
        (fun accepted member => proper accepted (List.mem_append_left _ member))
        (fun accepted member => readsBack accepted (List.mem_append_left _ member))
      cases call with
      | submitBlock moment localPolicy params =>
          cases stepped
          exact lead.submit moment localPolicy params free
      | adoptPeerChain moments ancestor blocks =>
          cases stepped
          exact lead.adopt moments ancestor blocks fits free proper readsBack
      | _ => cases fits

end Lead

/-! ## The restart -/

/-- Two indexes of one log with the same active chain show the same headers. -/
theorem getHeaderByHeight_eq {log : List (Accepted host)} {first second : Storage}
    (distinct : (log.map Accepted.hash).Nodup)
    (proper : ∀ accepted ∈ log, accepted.hash ≠ Digest.zero)
    {chain : List (Accepted host)} (firstActive : first.heightToHash = activeHashes chain)
    (secondActive : second.heightToHash = activeHashes chain)
    (firstTraced : Traced log first.chainIndex) (secondTraced : Traced log second.chainIndex)
    (height : Nat) : first.getHeaderByHeight height = second.getHeaderByHeight height := by
  have header : ∀ {storage : Storage} {hash : Digest} {accepted : Accepted host},
      Traced log storage.chainIndex → accepted ∈ log → accepted.hash = hash →
      hash ∈ storage.headersCache → storage.getHeaderByHash hash = some accepted.header := by
    intro storage hash accepted traced member named cached
    obtain ⟨found, isFound⟩ := Option.isSome_iff_exists.mp (Finmap.lookup_isSome.mpr cached)
    obtain ⟨other, otherIn, same, rfl⟩ := traced.headers hash found isFound
    have one : other = accepted :=
      List.inj_on_of_nodup_map distinct otherIn member (same.trans named.symm)
    rw [← one]
    exact isFound
  have filler : ∀ {storage : Storage}, Traced log storage.chainIndex →
      storage.getHeaderByHash Digest.zero = none := by
    intro storage traced
    by_contra present
    obtain ⟨found, isFound⟩ := Option.ne_none_iff_exists'.mp present
    obtain ⟨other, otherIn, same, _⟩ := traced.headers Digest.zero found isFound
    exact proper other otherIn same
  rw [Storage.getHeaderByHeight, Storage.getHeaderByHeight, firstActive, secondActive]
  cases listed : (activeHashes chain)[height]? with
  | none => rfl
  | some hash =>
      rw [Option.bind_some, Option.bind_some]
      rcases Nat.eq_zero_or_pos height with rfl | positive
      · have zero : hash = Digest.zero := by
          unfold activeHashes at listed
          split at listed
          · cases listed
          · exact (Option.some.inj listed).symm
        rw [zero, filler firstTraced, filler secondTraced]
      · have firstListed : first.heightToHash[height]? = some hash := by rw [firstActive, listed]
        have secondListed : second.heightToHash[height]? = some hash := by rw [secondActive, listed]
        obtain ⟨accepted, member, named, _⟩ := firstTraced.heights height hash positive firstListed
        rw [header firstTraced member named (firstTraced.cached height hash positive firstListed),
          header secondTraced member named
            (secondTraced.cached height hash positive secondListed)]

/-- A store shows another store's chain: the same tip, headers and coins. -/
structure Shows (storage shown : Storage) : Prop where
  tip : tipOf shown = tipOf storage
  height : shown.bestHeight = storage.bestHeight
  headers : ∀ height, shown.getHeaderByHeight height = storage.getHeaderByHeight height
  coins : shown.utxo = storage.utxo

/-- A restart restores the chain, the coins and the flag book of a leading node. -/
theorem Lead.restart {log : List (Accepted host)} {node : Node} (lead : Lead log node)
    (proper : ∀ accepted ∈ log, accepted.hash ≠ Digest.zero)
    (readsBack : ∀ accepted ∈ log, ReadsBack accepted) (moment : Moment) :
    ∃ next, restart host moment node = (next, .done) ∧ Shows node.storage next.storage ∧
      next.flags = node.flags := by
  obtain ⟨chain, forked, leading⟩ := lead
  have traced := forked.grounded.sourced.traced
  have chosen : chooseLongestChain (loadFoundBlocks host (documents log)) = scanned chain := by
    rcases List.eq_nil_or_concat chain with rfl | ⟨front, place, rfl⟩
    · cases leading
      rfl
    · rw [List.concat_eq_append] at forked leading ⊢
      rw [(leading_concat.mp leading).chosen, forked.found proper forked.branch]
      intro index accepted listed
      obtain ⟨before, utxo, flags, branch⟩ := forked.branches index accepted listed
      refine ⟨scanned before, ?_, ?_⟩
      · rw [forked.found proper branch, scanned, List.map_append]
        rfl
      · rw [scanned, List.length_map]
        exact branch.linked.last_height.symm
  obtain ⟨final, done, replayed, on⟩ := forked.applyBranch readsBack
    (restartBase node) traced.restartBase ⟨rfl, rfl⟩ rfl rfl forked.branch
  have file : final.mempoolFile = node.mempoolFile := by
    obtain ⟨names, storage, rfl⟩ := replayed.node_eq
    rfl
  have outcome : PiSecure.restart host moment node = (final, .done) := by
    have frames : node.reopen.storage.frames = documents log := reopen_frames traced.frames
    have cases := restart_eq host moment node
    rw [frames, chosen, done] at cases
    rcases cases with ⟨next, ended, finished⟩ | stopped
    · cases ended
      rw [finished, loadMempool_idle moment (file ▸ forked.file)]
    · exact stopped
  have tracedFinal : Traced log final.storage.chainIndex := by
    have restarted := traced.restart moment
    rwa [outcome] at restarted
  refine ⟨final, outcome, ⟨?_, ?_, ?_, replayed.coins⟩, ?_⟩
  · have live := forked.on.tip traced.shaped
    have again := on.tip tracedFinal.shaped
    rw [Storage.tip_chainIndex, expectPrev] at live again
    rw [tipOf, tipOf, Storage.hasTip, Storage.hasTip, on.active, forked.on.active]
    rw [Storage.hasTip, forked.on.active] at live
    rw [Storage.hasTip, on.active] at again
    split
    next tipped =>
      rw [if_pos tipped] at live again
      rw [live, again]
    · rfl
  · rw [on.best, forked.on.best]
  · exact getHeaderByHeight_eq forked.distinct proper on.active forked.on.active tracedFinal traced
  · obtain ⟨names, storage, rfl⟩ := replayed.node_eq
    rfl

/-- The blocks of the run with branches have a hash, and are read back. -/
theorem branchedLog_readable : ∀ accepted ∈ branchedLog storedHost,
    accepted.hash ≠ Digest.zero ∧ ReadsBack accepted := by
  have readable : ∀ seen ∈ branchedContents, seen.1 ≠ Digest.zero ∧
      ∀ tx ∈ seen.2.2.tail, (txToJson tx).dumpSize ≤ kMaxTxJsonBytes := by
    decide +kernel
  exact Accepted.forall_contents branched_shown.1 readable

/-- An adoption that passes the test is in line with the restart. -/
theorem keepsLead_of_leads {moments : Nat → Moment} {ancestor : Digest} {blocks : List Json}
    {node : Node} (test : leads host node moments ancestor blocks = true) :
    keepsLead host node (.adoptPeerChain moments ancestor blocks) := by
  intro based started
  rw [leads, started] at test
  dsimp only at test
  rw [Bool.and_eq_true, bne_iff_ne, beq_iff_eq] at test
  refine ⟨test.1, ?_⟩
  rw [← beq_iff_eq, test.2, List.any_eq_true]
  simp only [decide_eq_true_eq]

/-- Whether a restart goes from the first block to the second one. -/
private def movesOn (host : Host) (node : Node) : Bool :=
  tipOf node.storage == some openingHash &&
    (restart host sampleMoment node).2 == .done &&
      tipOf (restart host sampleMoment node).1.storage == some secondHash

end PiSecure
