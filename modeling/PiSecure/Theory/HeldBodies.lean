import Mathlib.Data.Finset.Card
import PiSecure.Theory.BranchChoice
import PiSecure.Theory.ServedHeaders

/-! # The bodies that a node holds for its peers

A held block is kept under the hash that its message claims. A later message that claims
the same hash overwrites it, whatever its body hashes to. Without such a message every
held body stays, and a branch is built from the bodies that were delivered for it.
-/

namespace PiSecure

variable {host : Host}

/-- The PiHash of the header fields of a body. -/
def recomputedHash (host : Host) (body : Json) : Option Digest :=
  match readFields body with
  | .error _ => none
  | .ok fields =>
      (fromHex fields.prevText).bind fun prev =>
        (fromHex fields.merkleText).map fun root =>
          if fields.height ≥ 5 then
            pihashV2 host 1 prev root fields.timestamp fields.difficulty fields.nonce fields.model
              fields.serial
          else
            pihashV1 host 1 prev root fields.timestamp fields.difficulty fields.nonce fields.model
              fields.serial

/-- A held block whose body hashes to the hash that it is held under. -/
def HeldBlock.Genuine (host : Host) (entry : HeldBlock) : Prop :=
  ∃ digest, recomputedHash host entry.body = some digest ∧ fromHex entry.hash = some digest

/-! ## What is held as a machine -/

/-- A change of the held blocks: an off-tip block message, or the removal of blocks by an
adoption. -/
inductive HeldCall where
  | message (body : Json)
  | drop (keeps : HeldBlock → Bool)

/-- The held blocks of a server, as a machine without events. -/
def heldMachine : Machine (List HeldBlock) HeldCall Unit where
  step held call :=
    match call with
    | .message body => some (noteOffTipBlock held body)
    | .drop keeps => some (held.filter keeps)
  events _ _ := []

/-- A single call of the held blocks. -/
theorem heldMachine_single {allowed : List HeldBlock → HeldCall → Prop}
    {held next : List HeldBlock} {call : HeldCall} (permitted : allowed held call)
    (stepped : heldMachine.step held call = some next) :
    heldMachine.Runs allowed held [call] [] next :=
  Machine.Runs.snoc .nil call permitted stepped

/-- A call leaves held blocks under hashes of their own. -/
theorem Holding.step {held next : List HeldBlock} {call : HeldCall} (holding : Holding held)
    (stepped : heldMachine.step held call = some next) : Holding next := by
  cases call with
  | message body =>
      cases stepped
      exact holding.note body
  | drop keeps =>
      cases stepped
      exact holding.sublist List.filter_sublist

theorem Holding.run {allowed : List HeldBlock → HeldCall → Prop} {first last : List HeldBlock}
    {calls : List HeldCall} {log : List Unit} (holding : Holding first)
    (run : heldMachine.Runs allowed first calls log last) : Holding last := by
  induction run with
  | nil => exact holding
  | call _ _ stepped ih => exact ih.step stepped

/-- A message that claims the hash of a genuine held block for another body. -/
def Displaces (host : Host) (held : List HeldBlock) (body : Json) : Prop :=
  ∃ entry ∈ held, entry.Genuine host ∧ ∃ item, notedBlock body = some item ∧
    item.hash = entry.hash ∧ body ≠ entry.body

/-- A call that displaces no genuine block, claims one of some hashes, and removes none of
some blocks. -/
def Undisturbed (host : Host) (names : Finset Text) (kept : List HeldBlock)
    (held : List HeldBlock) : HeldCall → Prop
  | .message body =>
      (∀ item, notedBlock body = some item → item.hash ∈ names) ∧ ¬Displaces host held body
  | .drop keeps => ∀ entry ∈ kept, keeps entry = true

/-- Held blocks with hashes among some names. -/
structure HeldUnder (names : Finset Text) (held : List HeldBlock) : Prop where
  holding : Holding held
  named : ∀ entry ∈ held, entry.hash ∈ names

variable {names : Finset Text} {kept held : List HeldBlock} {entry : HeldBlock}

namespace HeldUnder

/-- While there are names that are not held under yet, there is room. -/
theorem room (under : HeldUnder names held) (few : names.card ≤ kMaxHeldBlocks) {fresh : Text}
    (isName : fresh ∈ names) (new : fresh ∉ held.map HeldBlock.hash) :
    held.length < kMaxHeldBlocks := by
  have part : (held.map HeldBlock.hash).toFinset ⊂ names := by
    refine Finset.ssubset_iff_subset_ne.mpr ⟨?_, ?_⟩
    · intro hash listed
      obtain ⟨entry, member, rfl⟩ := List.mem_map.mp (List.mem_toFinset.mp listed)
      exact under.named entry member
    · intro same
      rw [← same] at isName
      exact new (List.mem_toFinset.mp isName)
  have fewer := Finset.card_lt_card part
  rw [List.toFinset_card_of_nodup under.holding.distinct, List.length_map] at fewer
  omega

theorem step (under : HeldUnder names held) {call : HeldCall} {next : List HeldBlock}
    (quiet : Undisturbed host names kept held call)
    (stepped : heldMachine.step held call = some next) : HeldUnder names next := by
  refine ⟨under.holding.step stepped, ?_⟩
  cases call with
  | drop keeps =>
      cases stepped
      exact fun entry member => under.named entry (List.mem_filter.mp member).1
  | message body =>
      cases stepped
      intro entry member
      rcases noteOffTipBlock_cases held body with
        ⟨_, same⟩ |
          ⟨item, noted, ⟨before, other, after, rfl, named, same⟩ | ⟨_, rest, part, _, same⟩⟩
      · rw [same] at member
        exact under.named entry member
      · rw [same] at member
        rcases List.mem_append.mp member with older | later
        · exact under.named entry (List.mem_append_left _ older)
        · rcases List.mem_cons.mp later with rfl | last
          · exact quiet.1 _ noted
          · exact under.named entry
              (List.mem_append_right _ (List.mem_cons_of_mem _ last))
      · rw [same] at member
        rcases List.mem_append.mp member with older | isNew
        · exact under.named entry (part.subset older)
        · exact List.mem_singleton.mp isNew ▸ quiet.1 _ noted

end HeldUnder

/-- A message keeps a held block exactly when it does not claim its hash for another body. -/
theorem mem_noteOffTipBlock_iff (holding : Holding held) (member : entry ∈ held) {body : Json}
    (room : ∀ item, notedBlock body = some item → item.hash ∉ held.map HeldBlock.hash →
      held.length < kMaxHeldBlocks) :
    entry ∈ noteOffTipBlock held body ↔
      ∀ item, notedBlock body = some item → item.hash = entry.hash → body = entry.body := by
  rcases noteOffTipBlock_cases held body with
    ⟨none, same⟩ |
      ⟨item, noted, ⟨before, other, after, rfl, named, same⟩ | ⟨fresh, rest, _, whole, same⟩⟩
  · rw [same]
    refine ⟨fun _ item noted => ?_, fun _ => member⟩
    rw [none] at noted
    cases noted
  · rw [same]
    have inside : other ∈ before ++ other :: after :=
      List.mem_append_right _ List.mem_cons_self
    by_cases claims : item.hash = entry.hash
    · -- The message claims the hash of this block, which is the one that is overwritten.
      have isOther := List.inj_on_of_nodup_map holding.distinct inside member (named.trans claims)
      subst isOther
      have once : other ∉ before ++ after :=
        (List.nodup_cons.mp (List.nodup_middle.mp (List.Nodup.of_map _ holding.distinct))).1
      constructor
      · intro stays again noted' _
        rw [noted] at noted'
        cases noted'
        rcases List.mem_append.mp stays with older | later
        · exact absurd (List.mem_append_left _ older) once
        · rcases List.mem_cons.mp later with isItem | last
          · rw [isItem, notedBlock_body noted]
          · exact absurd (List.mem_append_right _ last) once
      · intro unclaimed
        have body := unclaimed item noted claims
        have same : item = other := by
          have own := holding.noted other inside
          rw [HeldBlock.Noted, ← body, noted] at own
          exact Option.some.inj own
        rw [same]
        exact inside
    · refine ⟨fun _ again noted' claimed => ?_, fun _ => ?_⟩
      · rw [noted] at noted'
        cases noted'
        exact absurd claimed claims
      · rcases List.mem_append.mp member with older | later
        · exact List.mem_append_left _ older
        · rcases List.mem_cons.mp later with rfl | last
          · exact absurd named.symm claims
          · exact List.mem_append_right _ (List.mem_cons_of_mem _ last)
  · rw [same, whole (room item noted fresh)]
    refine ⟨fun _ again noted' claims => ?_, fun _ => List.mem_append_left _ member⟩
    rw [noted] at noted'
    cases noted'
    exact absurd (List.mem_map.mpr ⟨entry, member, claims.symm⟩) fresh

/-- A genuine block stays through a call that does not disturb it. -/
theorem HeldUnder.stays (under : HeldUnder names held) (few : names.card ≤ kMaxHeldBlocks)
    (watched : entry ∈ kept) (genuine : entry.Genuine host) (member : entry ∈ held)
    {call : HeldCall} {next : List HeldBlock} (quiet : Undisturbed host names kept held call)
    (stepped : heldMachine.step held call = some next) : entry ∈ next := by
  cases call with
  | drop keeps =>
      cases stepped
      exact List.mem_filter.mpr ⟨member, quiet entry watched⟩
  | message body =>
      cases stepped
      refine (mem_noteOffTipBlock_iff under.holding member ?_).mpr ?_
      · exact fun item noted new => under.room few (quiet.1 item noted) new
      · intro item noted claims
        by_contra differs
        exact quiet.2 ⟨entry, member, genuine, item, noted, claims, differs⟩

/-- A delivered block is held. -/
theorem mem_noteOffTipBlock (noted : entry.Noted) :
    entry ∈ noteOffTipBlock held entry.body := by
  rcases noteOffTipBlock_cases held entry.body with
    ⟨none, _⟩ |
      ⟨item, again, ⟨before, other, after, rfl, named, same⟩ | ⟨_, rest, _, _, same⟩⟩
  · rw [HeldBlock.Noted, none] at noted
    cases noted
  · rw [same, Option.some.inj (again.symm.trans noted)]
    exact List.mem_append_right _ List.mem_cons_self
  · rw [same, Option.some.inj (again.symm.trans noted)]
    exact List.mem_append_right _ (List.mem_singleton_self _)

section Runs

variable {calls more : List HeldCall} {log logged : List Unit} {first last : List HeldBlock}

theorem HeldUnder.run (run : heldMachine.Runs (Undisturbed host names kept) [] calls log held) :
    HeldUnder names held :=
  @Machine.Runs.invariant _ _ _ _ _ _ (fun _ held => HeldUnder names held)
    ⟨Holding.nil, List.forall_mem_nil _⟩
    (fun under quiet stepped => under.step quiet stepped) _ _ _ run

/-- A genuine block stays through a run that does not disturb it. -/
theorem HeldUnder.stays_run (under : HeldUnder names first) (few : names.card ≤ kMaxHeldBlocks)
    (watched : entry ∈ kept) (genuine : entry.Genuine host) (member : entry ∈ first)
    (run : heldMachine.Runs (Undisturbed host names kept) first calls log last) : entry ∈ last := by
  have both : HeldUnder names last ∧ entry ∈ last :=
    @Machine.Runs.invariant _ _ _ _ _ _ (fun _ held => HeldUnder names held ∧ entry ∈ held)
      ⟨under, member⟩
      (fun holds quiet stepped =>
        ⟨holds.1.step quiet stepped, holds.1.stays few watched genuine holds.2 quiet stepped⟩)
      _ _ _ run
  exact both.2

/-- A genuine block that was delivered in a run that does not disturb it is held at its
end. -/
theorem mem_of_delivered (few : names.card ≤ kMaxHeldBlocks) (watched : entry ∈ kept)
    (noted : entry.Noted) (genuine : entry.Genuine host)
    (run : heldMachine.Runs (Undisturbed host names kept) [] calls log last)
    (delivered : HeldCall.message entry.body ∈ calls) : entry ∈ last := by
  induction run with
  | nil => cases delivered
  | call earlier quiet stepped ih =>
      rcases List.mem_append.mp delivered with before | isLast
      · exact (HeldUnder.run earlier).stays few watched genuine (ih before) quiet stepped
      · cases List.mem_singleton.mp isLast
        cases stepped
        exact mem_noteOffTipBlock noted

end Runs

/-! ## Branches of delivered blocks -/

/-- A branch of some held blocks is one of more held blocks. -/
theorem BranchTo.mono {storage : Storage} {fewer others : List HeldBlock} {ancestor : Digest}
    {blocks : List HeldBlock} {tip : HeldBlock}
    (branch : BranchTo storage fewer ancestor blocks tip)
    (held : ∀ block ∈ fewer, block ∈ others) : BranchTo storage others ancestor blocks tip := by
  induction branch with
  | child canonical cached waiting named height =>
      exact .child canonical cached ⟨held _ waiting.1, waiting.2⟩ named height
  | grow _ read waiting named height ih =>
      exact .grow ih read ⟨held _ waiting.1, waiting.2⟩ named height

/-- **Held blocks stay.** In a run in which no message claims the hash of a genuine held
block for another body, such a block stays as it is, and the candidate for a branch of
delivered genuine blocks consists of their bodies. A message that does claim the hash of a
held block for another body takes its place. -/
theorem held_blocks_stay {names : Finset Text} (few : names.card ≤ kMaxHeldBlocks)
    {kept first last : List HeldBlock} {before after : List HeldCall} {log logged : List Unit}
    (reached : heldMachine.Runs (Undisturbed host names kept) [] before log first)
    (later : heldMachine.Runs (Undisturbed host names kept) first after logged last) :
    (∀ entry ∈ kept, entry.Genuine host → entry ∈ first → entry ∈ last) ∧
    (∀ (storage : Storage) (chain : List BlockHeader) (ancestor : Digest)
      (blocks : List HeldBlock) (tip : HeldBlock) (refused : List Text) (now : UInt64),
      Path storage.chainIndex chain → 0 < chain.length →
      (∀ block ∈ blocks, block ∈ kept ∧ block.Noted ∧ block.Genuine host ∧
        HeldCall.message block.body ∈ before ++ after) →
      BranchTo storage blocks ancestor blocks tip → localHeight storage < tip.height →
      tip.hash ∉ refused → aheadOf now (blocks.map HeldBlock.body) = false →
      candidateAt storage (dropCanonical (canonicalHashes storage) last) refused now tip =
        some (offered ancestor blocks tip)) ∧
    ∀ entry ∈ last, ∀ body item, notedBlock body = some item → item.hash = entry.hash →
      body ≠ entry.body → entry ∉ noteOffTipBlock last body := by
  have whole := reached.trans later
  have under := HeldUnder.run whole
  refine ⟨?_, ?_, ?_⟩
  · intro entry watched genuine member
    exact (HeldUnder.run reached).stays_run few watched genuine member later
  · intro storage chain ancestor blocks tip refused now path nonempty delivered branch taller
      unrefused onTime
    have collected := path.mem_canonicalHashes nonempty
    have held : ∀ block ∈ blocks, block ∈ last := by
      intro block member
      obtain ⟨watched, noted, genuine, sent⟩ := delivered block member
      exact mem_of_delivered few watched noted genuine whole sent
    have among := branch.mono held
    exact (candidateAt_eq_some under.holding collected refused now
      ((mem_dropCanonical collected).mpr among.waiting)).mpr
      ⟨ancestor, blocks, ⟨among, unrefused, taller⟩, onTime, rfl⟩
  · intro entry member body item noted claims differs stays
    have inside : item.hash ∈ last.map HeldBlock.hash :=
      claims ▸ List.mem_map_of_mem member
    refine differs ((mem_noteOffTipBlock_iff under.holding member ?_).mp stays item noted claims)
    intro other again new
    rw [noted] at again
    cases again
    exact absurd inside new

section Samples

/-- Some mined blocks as they are held: one on the first block, the one on top of it, and
another one on the first block. -/
private def sideHeld : HeldBlock := ⟨sideBlock.json, toHex sideHash, toHex openingHash, 2⟩

private def topHeld : HeldBlock := ⟨topBlock.json, toHex topHash, toHex sideHash, 3⟩

private def secondHeld : HeldBlock := ⟨secondBlock.json, toHex secondHash, toHex openingHash, 2⟩

private theorem held_noted : topHeld.Noted ∧ sideHeld.Noted ∧ secondHeld.Noted := by
  have read : ∀ entry ∈ [topHeld, sideHeld, secondHeld], ((notedBlock entry.body).map fun item =>
      (item.hash, item.prev, item.height)) = some (entry.hash, entry.prev, entry.height) := by
    decide +kernel
  have noted : ∀ entry ∈ [topHeld, sideHeld, secondHeld], entry.Noted := by
    intro entry member
    obtain ⟨item, found, same⟩ := Option.map_eq_some_iff.mp (read entry member)
    have body := notedBlock_body found
    rw [HeldBlock.Noted, found]
    cases item
    cases entry
    cases same
    cases body
    rfl
  simpa using noted

/-- The block on top and the one below it have the hashes that they are held under. -/
private theorem held_genuine : topHeld.Genuine (Host.ofTables [] []) ∧
    sideHeld.Genuine (Host.ofTables [] []) := by
  have hashes : recomputedHash (Host.ofTables [] []) topHeld.body = some topHash ∧
      recomputedHash (Host.ofTables [] []) sideHeld.body = some sideHash := by
    decide +kernel
  exact ⟨⟨topHash, hashes.1, fromHex_toHex _⟩, ⟨sideHash, hashes.2, fromHex_toHex _⟩⟩

private theorem top_held : topHeld ∈ noteOffTipBlock [] topBlock.json :=
  mem_noteOffTipBlock held_noted.1

/-- A message under a new hash disturbs nothing. -/
private theorem undisturbed_fresh {names : Finset Text} {kept held : List HeldBlock}
    {item : HeldBlock} (noted : item.Noted) (listed : item.hash ∈ names)
    (fresh : item.hash ∉ held.map HeldBlock.hash) :
    Undisturbed host names kept held (.message item.body) := by
  refine ⟨fun other again => ?_, ?_⟩
  · rw [Option.some.inj (again.symm.trans noted)]
    exact listed
  · rintro ⟨entry, member, _, other, again, claims, _⟩
    rw [Option.some.inj (again.symm.trans noted)] at claims
    exact fresh (claims ▸ List.mem_map_of_mem member)

/-- A message under a new hash is held at the end, while there is room. -/
private theorem noteOffTipBlock_fresh {held : List HeldBlock} {item : HeldBlock}
    (noted : item.Noted) (fresh : item.hash ∉ held.map HeldBlock.hash)
    (room : held.length < kMaxHeldBlocks) : noteOffTipBlock held item.body = held ++ [item] := by
  rcases noteOffTipBlock_cases held item.body with
    ⟨none, _⟩ |
      ⟨other, again, ⟨before, entry, after, rfl, named, _⟩ | ⟨_, rest, _, whole, same⟩⟩
  · rw [HeldBlock.Noted, none] at noted
    cases noted
  · rw [Option.some.inj (again.symm.trans noted)] at named
    exact absurd (List.mem_map.mpr
      ⟨entry, List.mem_append_right _ List.mem_cons_self, named⟩) fresh
  · rw [same, whole room, Option.some.inj (again.symm.trans noted)]

/-- The two blocks are a branch on the first one. -/
private theorem top_branch : ∃ chain,
    Path (openedNode (Host.ofTables [] [])).storage.chainIndex chain ∧ 0 < chain.length ∧
      BranchTo (openedNode (Host.ofTables [] [])).storage [sideHeld, topHeld] openingHash
        [sideHeld, topHeld] topHeld ∧
      localHeight (openedNode (Host.ofTables [] [])).storage < topHeld.height := by
  obtain ⟨chain, path, nonempty⟩ := opened_onPath
  obtain ⟨canonical, header, cached, height⟩ := opened_tip
  have shown : (∀ entry ∈ [sideHeld, topHeld], ∀ hash ∈ fromHex entry.hash,
        hash ∉ canonicalHashes (openedNode (Host.ofTables [] [])).storage) ∧
      localHeight (openedNode (Host.ofTables [] [])).storage < topHeld.height := by
    rw [openedNode_eq]
    decide +kernel
  have waiting : ∀ entry ∈ [sideHeld, topHeld],
      Waiting (openedNode (Host.ofTables [] [])).storage [sideHeld, topHeld] entry :=
    fun entry member => ⟨member, fun hash named there =>
      shown.1 entry member hash named ((path.mem_canonicalHashes nonempty hash).mpr there)⟩
  have links : sideHeld.parent? = some openingHash ∧ fromHex sideHeld.hash = some sideHash ∧
      topHeld.parent? = some sideHash := by
    decide +kernel
  have below : BranchTo (openedNode (Host.ofTables [] [])).storage [sideHeld, topHeld] openingHash
      [sideHeld] sideHeld := by
    refine .child canonical cached (waiting _ List.mem_cons_self) links.1 ?_
    rw [height]
    rfl
  exact ⟨chain, path, nonempty, .grow below links.2.1
    (waiting _ (List.mem_cons_of_mem _ List.mem_cons_self)) links.2.2 rfl, shown.2⟩

/-- The names of the blocks that are told. -/
private def toldNames : Finset Text := {topHeld.hash, secondHeld.hash, sideHeld.hash}

private theorem mem_toldNames :
    topHeld.hash ∈ toldNames ∧ secondHeld.hash ∈ toldNames ∧ sideHeld.hash ∈ toldNames := by
  simp [toldNames]

/-- The block on top is told by one peer. -/
private theorem top_run (host : Host) :
    heldMachine.Runs (Undisturbed host toldNames [sideHeld, topHeld]) []
      [.message topHeld.body] [] [topHeld] :=
  heldMachine_single (undisturbed_fresh held_noted.1 mem_toldNames.1 List.not_mem_nil)
    (congrArg some (noteOffTipBlock_fresh held_noted.1 List.not_mem_nil (by decide)))

/-- The blocks that stay when the second block is adopted. -/
private def stays (block : HeldBlock) : Bool := block.hash != secondHeld.hash

/-- Two blocks are told by another peer, and the first one of them is adopted. -/
private theorem others_run (host : Host) :
    heldMachine.Runs (Undisturbed host toldNames [sideHeld, topHeld]) [topHeld]
      [.message secondHeld.body, .message sideHeld.body, .drop stays] [] [topHeld, sideHeld] := by
  obtain ⟨_, sideNoted, secondNoted⟩ := held_noted
  have fresh : secondHeld.hash ∉ [topHeld].map HeldBlock.hash ∧
      sideHeld.hash ∉ [topHeld, secondHeld].map HeldBlock.hash := by
    decide +kernel
  have second : heldMachine.Runs (Undisturbed host toldNames [sideHeld, topHeld]) [topHeld]
      [.message secondHeld.body] [] [topHeld, secondHeld] :=
    heldMachine_single (undisturbed_fresh secondNoted mem_toldNames.2.1 fresh.1)
      (congrArg some (noteOffTipBlock_fresh secondNoted fresh.1 (by decide)))
  have side := second.snoc (.message sideHeld.body)
    (undisturbed_fresh sideNoted mem_toldNames.2.2 fresh.2)
    (congrArg some (noteOffTipBlock_fresh sideNoted fresh.2 (by decide)))
  have others : stays topHeld = true ∧ ¬stays secondHeld = true ∧ stays sideHeld = true := by
    decide +kernel
  have left : ([topHeld, secondHeld] ++ [sideHeld]).filter stays = [topHeld, sideHeld] := by
    rw [List.cons_append, List.cons_append, List.nil_append, List.filter_cons_of_pos others.1,
      List.filter_cons_of_neg others.2.1, List.filter_cons_of_pos others.2.2, List.filter_nil]
  have keeps : ∀ entry ∈ [sideHeld, topHeld], stays entry = true :=
    List.forall_mem_cons.mpr ⟨others.2.2, List.forall_mem_singleton.mpr others.1⟩
  exact side.snoc (.drop stays) keeps (congrArg some left)

/-- The blocks of another peer, one of which is adopted, leave the branch that ends at the
block on top. -/
theorem held_blocks_stay_branch :
    ∃ (storage : Storage) (names : Finset Text) (kept : List HeldBlock) (tip : HeldBlock)
      (before after : List HeldCall) (log logged : List Unit) (first last : List HeldBlock),
      names.card ≤ kMaxHeldBlocks ∧
      heldMachine.Runs (Undisturbed (Host.ofTables [] []) names kept) [] before log first ∧
      heldMachine.Runs (Undisturbed (Host.ofTables [] []) names kept) first after logged last ∧
      tip.Genuine (Host.ofTables [] []) ∧ tip ∈ first ∧ tip ∈ last ∧ last ≠ first ∧
      candidateAt storage (dropCanonical (canonicalHashes storage) last) [] 1000 tip =
        some (offered openingHash kept tip) := by
  obtain ⟨topNoted, sideNoted, _⟩ := held_noted
  obtain ⟨topGenuine, sideGenuine⟩ := held_genuine
  obtain ⟨chain, path, nonempty, branch, taller⟩ := top_branch
  have few : toldNames.card ≤ kMaxHeldBlocks := Nat.le_trans Finset.card_le_three (by decide)
  have reached := top_run (Host.ofTables [] [])
  have later := others_run (Host.ofTables [] [])
  obtain ⟨kept, built, _⟩ := held_blocks_stay few reached later
  have chosen := built _ chain openingHash [sideHeld, topHeld] topHeld [] 1000 path nonempty
    (by simp [topNoted, sideNoted, topGenuine, sideGenuine]) branch taller List.not_mem_nil
    (by decide +kernel)
  exact ⟨_, toldNames, [sideHeld, topHeld], topHeld, _, _, _, _, _, _, few, reached, later,
    topGenuine, List.mem_cons_self,
    kept _ (List.mem_cons_of_mem _ List.mem_cons_self) topGenuine List.mem_cons_self,
    fun same => List.cons_ne_nil _ _ (List.tail_eq_of_cons_eq same), chosen⟩

/-- The block on top with another time under the same hash. -/
private def forgedTop : Json := ({ topBlock with stamp := 302 } : MinedBlock).json

/-- The node on the second block. -/
private def secondNode (host : Host) : Node :=
  (rpcSubmitblock host sampleMoment false (openedNode host) secondBlock.json).1

private theorem secondNode_run (host : Host) : ∃ calls log,
    (nodeMachine host).Runs (fun state call => Stable.storesBinary host state call = false)
      (Node.empty fun _ => none) calls log (secondNode host) :=
  ⟨_, _, (openedNode_run host
    (fun state call => Stable.storesBinary host state call = false) rfl).snoc
    (.submitBlock sampleMoment false secondBlock.json) rfl rfl⟩

/-- What the hostile message is, and what the choice comes to after it. -/
private theorem forged_shown :
    ((notedBlock forgedTop).map HeldBlock.hash = some (toHex topHash) ∧
      recomputedHash (Host.ofTables [] []) forgedTop ≠ some topHash) ∧
      topBlock.json.unsigned? "timestamp" = some 301 ∧
      forgedTop.unsigned? "timestamp" ≠ some 301 := by
  decide +kernel

private theorem forged_chosen : ∃ candidate,
    bestCandidate (secondNode (Host.ofTables [] [])).storage
      ([topBlock.json, forgedTop, sideBlock.json].foldl noteOffTipBlock []) [] 1000 =
        some candidate ∧
    candidate.tip = toHex topHash ∧
    candidate.bodies.map (Json.unsigned? · "timestamp") = [some 201, some 302] := by
  have shown : (bestCandidate (secondNode (Host.ofTables [] [])).storage
      ([topBlock.json, forgedTop, sideBlock.json].foldl noteOffTipBlock []) [] 1000).any
      (fun candidate => candidate.tip == toHex topHash &&
        candidate.bodies.map (Json.unsigned? · "timestamp") == [some 201, some 302]) = true := by
    rw [secondNode, openedNode_eq]
    decide +kernel
  obtain ⟨candidate, best, fields⟩ := (Option.any_eq_true _ _).mp shown
  rw [Bool.and_eq_true, beq_iff_eq, beq_iff_eq] at fields
  exact ⟨candidate, best, fields⟩

/-- **A displaced block.** After a message with the hash of a held block and another time,
the held block is gone, and the candidate that ends at its hash has another body. -/
theorem forged_body_displaces :
    ∃ (host : Host) (calls : List Call) (log : List (Accepted host)) (node : Node)
      (genuine forged below : Json) (entry : HeldBlock) (candidate : Candidate) (now : UInt64),
      (nodeMachine host).Runs (fun state call => Stable.storesBinary host state call = false)
        (Node.empty fun _ => none) calls log node ∧
      notedBlock genuine = some entry ∧ entry.Genuine host ∧
      recomputedHash host forged ≠ fromHex entry.hash ∧
      entry ∈ noteOffTipBlock [] genuine ∧
      entry ∉ noteOffTipBlock (noteOffTipBlock [] genuine) forged ∧
      bestCandidate node.storage ([genuine, forged, below].foldl noteOffTipBlock []) [] now =
        some candidate ∧
      candidate.tip = entry.hash ∧ genuine ∉ candidate.bodies := by
  obtain ⟨⟨named, forged⟩, stamp, differs⟩ := forged_shown
  obtain ⟨item, forgedNoted, itemHash⟩ := Option.map_eq_some_iff.mp named
  obtain ⟨candidate, best, tip, stamps⟩ := forged_chosen
  obtain ⟨calls, log, run⟩ := secondNode_run (Host.ofTables [] [])
  have isTop : fromHex topHeld.hash = some topHash := fromHex_toHex _
  refine ⟨_, calls, log, _, topBlock.json, forgedTop, sideBlock.json, topHeld, candidate, 1000, run,
    held_noted.1, held_genuine.1, isTop ▸ forged, top_held, ?_, best, tip, ?_⟩
  · intro still
    have same := (mem_noteOffTipBlock_iff (Holding.nil.note _) top_held ?_).mp still item
      forgedNoted itemHash
    · change forgedTop = topBlock.json at same
      rw [same] at differs
      exact differs stamp
    · intro other again new
      rw [forgedNoted] at again
      cases again
      exact absurd (List.mem_map.mpr ⟨topHeld, top_held, itemHash.symm⟩) new
  · intro inside
    have listed := List.mem_map_of_mem (f := (Json.unsigned? · "timestamp")) inside
    rw [stamps, stamp] at listed
    revert listed
    decide

end Samples

end PiSecure
