import PiSecure.Theory.Mining

/-! # The challenge cache

A miner asks for a template and gets a challenge; a block that is accepted
retires the challenges of its tip. The two maps of the cache are read back here
as what has been returned and retired: a challenge is live for a tip from the
call that returns it to the first call that retires a challenge of the tip.
-/

namespace PiSecure

/-! ## What has been called -/

/-- A text of 64 hex digits. -/
def HexTip (tip : Text) : Prop := tip.length = 64 ∧ ∀ c ∈ tip, (nybble c).isSome = true

/-- A call on the cache, with what it returned. -/
inductive CacheEvent where
  | returned (tip merkle miner challenge : Text)
  | asked (challenge tip : Text) (answer : Bool)
  | retired (challenge : Text)
deriving DecidableEq

open CacheEvent

/-- A challenge was returned for a tip, and no challenge that was live for the tip has been
retired since. The latest event is first. -/
def Live : List CacheEvent → Text → Text → Prop
  | [], _, _ => False
  | returned issuedFor _ _ new :: past, challenge, tip =>
      (challenge = new ∧ tip = issuedFor) ∨ Live past challenge tip
  | asked _ _ _ :: past, challenge, tip => Live past challenge tip
  | retired gone :: past, challenge, tip => Live past challenge tip ∧ ¬Live past gone tip

/-- A text has been returned as a challenge. -/
def Drawn (past : List CacheEvent) (challenge : Text) : Prop :=
  ∃ tip merkle miner, returned tip merkle miner challenge ∈ past

/-- The nodes after calls on an empty cache, in any order. The tips are hex, and what
`RAND_bytes` draws has not been drawn before. -/
inductive CacheRun : Node → List CacheEvent → Prop
  | start {node : Node} (noChallenges : node.challenges = ∅)
    (noOutstanding : node.outstanding = ∅) :
      CacheRun node []
  | template {node : Node} {past : List CacheEvent} {tip merkle miner : Text} (moment : Moment) :
      CacheRun node past → HexTip tip →
      (node.outstanding.lookup (challengeKey tip merkle miner) = none →
        ∃ raw, moment.fresh = some raw ∧ ¬Drawn past (toHex raw)) →
      CacheRun (challengeForTemplate moment node tip merkle miner).2
        (returned tip merkle miner (challengeForTemplate moment node tip merkle miner).1 :: past)
  | ask {node : Node} {past : List CacheEvent} (challenge tip : Text) :
      CacheRun node past →
      CacheRun node (asked challenge tip (challengeWasIssued node challenge tip) :: past)
  | retire {node : Node} {past : List CacheEvent} (challenge : Text) :
      CacheRun node past →
      CacheRun (retireChallenge node challenge) (retired challenge :: past)

/-! ## Keys -/

theorem HexTip.noBar {tip : Text} (hex : HexTip tip) : '|' ∉ tip := by
  intro member
  exact absurd (hex.2 '|' member) (by decide)

/-- The node passes tips as the hex of a hash. -/
theorem hexTip_toHex (digest : Digest) : HexTip (toHex digest) := by
  have digits : ∀ nibble < 16, (nybble (hexDigit nibble)).isSome = true := by decide
  constructor
  · exact length_toHex digest
  · intro c member
    obtain ⟨byte, _, shown⟩ := List.mem_flatMap.mp member
    have high : byte.toNat / 16 < 16 := Nat.div_lt_of_lt_mul byte.toNat_lt
    rcases List.mem_pair.mp shown with rfl | rfl
    · exact digits _ high
    · exact digits _ (Nat.mod_lt _ (by decide))

/-- Texts without a bar in front of one are read back. -/
theorem bar_inj {tip other rest more : Text} (noBar : '|' ∉ tip) (otherNoBar : '|' ∉ other)
    (same : tip ++ '|' :: rest = other ++ '|' :: more) : tip = other ∧ rest = more := by
  induction tip generalizing other with
  | nil =>
      cases other with
      | nil => exact ⟨rfl, (List.cons.inj same).2⟩
      | cons c other =>
          rw [(List.cons.inj same).1] at otherNoBar
          exact absurd List.mem_cons_self otherNoBar
  | cons c tip ih =>
      cases other with
      | nil =>
          rw [(List.cons.inj same).1] at noBar
          exact absurd List.mem_cons_self noBar
      | cons d other =>
          obtain ⟨first, tail⟩ := List.cons.inj same
          obtain ⟨kept, left⟩ := ih (fun member => noBar (List.mem_cons_of_mem _ member))
            (fun member => otherNoBar (List.mem_cons_of_mem _ member)) tail
          exact ⟨by rw [first, kept], left⟩

theorem challengeKey_eq (tip merkle miner : Text) :
    challengeKey tip merkle miner = tip ++ '|' :: (merkle ++ '|' :: miner) := by
  rw [challengeKey, List.append_assoc]
  rfl

/-- The tip of a key is read back. -/
theorem challengeKey_tip {tip merkle miner other root payout : Text} (hex : HexTip tip)
    (otherHex : HexTip other)
    (same : challengeKey tip merkle miner = challengeKey other root payout) : tip = other := by
  rw [challengeKey_eq, challengeKey_eq] at same
  exact (bar_inj hex.noBar otherHex.noBar same).1

/-- The whole key is read back when the merkle roots have no bar. -/
theorem challengeKey_inj {tip merkle miner other root payout : Text} (hex : HexTip tip)
    (otherHex : HexTip other) (plain : '|' ∉ merkle) (otherPlain : '|' ∉ root)
    (same : challengeKey tip merkle miner = challengeKey other root payout) :
    tip = other ∧ merkle = root ∧ miner = payout := by
  rw [challengeKey_eq, challengeKey_eq] at same
  obtain ⟨tips, rest⟩ := bar_inj hex.noBar otherHex.noBar same
  exact ⟨tips, bar_inj plain otherPlain rest⟩

/-- A key is of a tip exactly when the tip and a bar stand in front. -/
theorem isPrefixOf_challengeKey {tip other merkle miner : Text} (hex : HexTip tip)
    (otherHex : HexTip other) :
    (other ++ ['|']).isPrefixOf (challengeKey tip merkle miner) = true ↔ tip = other := by
  rw [List.isPrefixOf_iff_prefix, challengeKey_eq]
  constructor
  · rintro ⟨rest, same⟩
    rw [List.append_assoc] at same
    exact (bar_inj otherHex.noBar hex.noBar same).1.symm
  · rintro rfl
    exact ⟨merkle ++ '|' :: miner, by rw [List.append_assoc]; rfl⟩

/-! ## The maps -/

theorem lookup_keepEntries {map : AList fun _ : Text => Text} {keep : Text → Text → Bool}
    {key value : Text} :
    (keepEntries map keep).lookup key = some value ↔
      map.lookup key = some value ∧ keep key value = true := by
  rw [← Option.mem_def, ← Option.mem_def, AList.mem_lookup_iff, AList.mem_lookup_iff]
  exact List.mem_filter

/-- What a retired challenge leaves of the challenges. -/
theorem lookup_retireChallenge {node : Node} {gone challenge tip : Text} :
    (retireChallenge node gone).challenges.lookup challenge = some tip ↔
      node.challenges.lookup challenge = some tip ∧ node.challenges.lookup gone ≠ some tip := by
  unfold retireChallenge
  split
  next unknown => simp [unknown]
  next issuedFor found =>
    rw [forgetTip, lookup_keepEntries, found, bne_iff_ne, ne_eq, ne_eq, Option.some.injEq,
      @eq_comm _ tip issuedFor]

/-- What a retired challenge leaves of the outstanding keys. -/
theorem outstanding_retireChallenge {node : Node} {gone tip merkle miner challenge : Text}
    (hex : HexTip tip) (tips : ∀ issuedFor, node.challenges.lookup gone = some issuedFor →
      HexTip issuedFor) :
    (retireChallenge node gone).outstanding.lookup (challengeKey tip merkle miner) =
        some challenge ↔
      node.outstanding.lookup (challengeKey tip merkle miner) = some challenge ∧
        node.challenges.lookup gone ≠ some tip := by
  unfold retireChallenge
  split
  next unknown => simp [unknown]
  next issuedFor found =>
    rw [forgetTip, lookup_keepEntries, found, Bool.not_eq_true', ← Bool.not_eq_true,
      isPrefixOf_challengeKey hex (tips issuedFor found), ne_eq, Option.some.injEq,
      @eq_comm _ tip issuedFor]

/-- A key that is left was there. -/
theorem outstanding_of_retireChallenge {node : Node} {gone key challenge : Text}
    (left : (retireChallenge node gone).outstanding.lookup key = some challenge) :
    node.outstanding.lookup key = some challenge := by
  unfold retireChallenge at left
  split at left
  · exact left
  · exact (lookup_keepEntries.mp left).1

/-- What a call for a template does: it returns what is outstanding, or what it draws. -/
theorem challengeForTemplate_cases {moment : Moment} {node : Node} {tip merkle miner : Text}
    {past : List CacheEvent}
    (fresh : node.outstanding.lookup (challengeKey tip merkle miner) = none →
      ∃ raw, moment.fresh = some raw ∧ ¬Drawn past (toHex raw)) :
    (∃ found, node.outstanding.lookup (challengeKey tip merkle miner) = some found ∧
      challengeForTemplate moment node tip merkle miner = (found, node)) ∨
    ∃ new, node.outstanding.lookup (challengeKey tip merkle miner) = none ∧ ¬Drawn past new ∧
      challengeForTemplate moment node tip merkle miner =
        (new, { node with
          challenges := node.challenges.insert new tip
          outstanding := node.outstanding.insert (challengeKey tip merkle miner) new }) := by
  unfold challengeForTemplate
  split
  next found same => exact Or.inl ⟨found, same, rfl⟩
  next none =>
    obtain ⟨raw, drawn, unseen⟩ := fresh none
    rw [drawn]
    exact Or.inr ⟨toHex raw, none, unseen, rfl⟩

/-! ## Coherence -/

/-- Only what was returned for a tip is live for it. -/
theorem Live.returned {past : List CacheEvent} {challenge tip : Text}
    (live : Live past challenge tip) :
    ∃ merkle miner, CacheEvent.returned tip merkle miner challenge ∈ past := by
  induction past with
  | nil => exact live.elim
  | cons event past ih =>
      have older (earlier : Live past challenge tip) :
          ∃ merkle miner, CacheEvent.returned tip merkle miner challenge ∈ event :: past := by
        obtain ⟨merkle, miner, member⟩ := ih earlier
        exact ⟨merkle, miner, List.mem_cons_of_mem _ member⟩
      cases event with
      | returned issuedFor merkle miner new =>
          rcases live with ⟨rfl, rfl⟩ | earlier
          · exact ⟨merkle, miner, List.mem_cons_self⟩
          · exact older earlier
      | asked => exact older live
      | retired => exact older live.1

theorem Live.drawn {past : List CacheEvent} {challenge tip : Text}
    (live : Live past challenge tip) :
    Drawn past challenge := by
  obtain ⟨merkle, miner, member⟩ := live.returned
  exact ⟨tip, merkle, miner, member⟩

/-- The two maps say what the calls have returned and retired. -/
structure Coherent (node : Node) (past : List CacheEvent) : Prop where
  live : ∀ challenge tip,
    node.challenges.lookup challenge = some tip ↔ Live past challenge tip
  outstanding : ∀ key challenge, node.outstanding.lookup key = some challenge →
    ∃ tip merkle miner, key = challengeKey tip merkle miner ∧ HexTip tip ∧
      returned tip merkle miner challenge ∈ past ∧ node.challenges.lookup challenge = some tip
  tips : ∀ tip merkle miner challenge, returned tip merkle miner challenge ∈ past → HexTip tip
  keys : ∀ tip merkle miner other root payout challenge,
    returned tip merkle miner challenge ∈ past → returned other root payout challenge ∈ past →
    challengeKey tip merkle miner = challengeKey other root payout

namespace Coherent

variable {node : Node} {past : List CacheEvent}

theorem tip_of_lookup (coherent : Coherent node past) {challenge tip : Text}
    (found : node.challenges.lookup challenge = some tip) : HexTip tip := by
  obtain ⟨merkle, miner, member⟩ := ((coherent.live challenge tip).mp found).returned
  exact coherent.tips tip merkle miner challenge member

/-- A question changes nothing. -/
theorem ask (coherent : Coherent node past) (challenge tip : Text) (answer : Bool) :
    Coherent node (asked challenge tip answer :: past) where
  live := coherent.live
  outstanding key found same := by
    obtain ⟨issuedFor, merkle, miner, keyEq, hex, member, mapped⟩ :=
      coherent.outstanding key found same
    exact ⟨issuedFor, merkle, miner, keyEq, hex, List.mem_cons_of_mem _ member, mapped⟩
  tips issuedFor merkle miner found member := by
    cases member with
    | tail _ earlier => exact coherent.tips issuedFor merkle miner found earlier
  keys issuedFor merkle miner other root payout found first second := by
    cases first with
    | tail _ first =>
        cases second with
        | tail _ second =>
            exact coherent.keys issuedFor merkle miner other root payout found first second

/-- A retired challenge takes the challenges and the keys of its tip with it. -/
theorem retire (coherent : Coherent node past) (gone : Text) :
    Coherent (retireChallenge node gone) (retired gone :: past) where
  live challenge tip := by
    rw [lookup_retireChallenge, coherent.live challenge tip, ne_eq, coherent.live gone tip]
    rfl
  outstanding key challenge left := by
    obtain ⟨tip, merkle, miner, rfl, hex, member, mapped⟩ :=
      coherent.outstanding key challenge (outstanding_of_retireChallenge left)
    have spared := (outstanding_retireChallenge hex fun issuedFor found =>
      coherent.tip_of_lookup found).mp left
    exact ⟨tip, merkle, miner, rfl, hex, List.mem_cons_of_mem _ member,
      lookup_retireChallenge.mpr ⟨mapped, spared.2⟩⟩
  tips tip merkle miner challenge member := by
    cases member with
    | tail _ earlier => exact coherent.tips tip merkle miner challenge earlier
  keys tip merkle miner other root payout challenge first second := by
    cases first with
    | tail _ first =>
        cases second with
        | tail _ second =>
            exact coherent.keys tip merkle miner other root payout challenge first second

/-- What is outstanding for a key is returned again. -/
theorem again (coherent : Coherent node past) {tip merkle miner found : Text} (hex : HexTip tip)
    (same : node.outstanding.lookup (challengeKey tip merkle miner) = some found) :
    Coherent node (returned tip merkle miner found :: past) := by
  obtain ⟨issuedFor, root, payout, keyEq, issuedHex, issued, mapped⟩ :=
    coherent.outstanding _ found same
  obtain rfl := challengeKey_tip hex issuedHex keyEq
  refine ⟨?_, ?_, ?_, ?_⟩
  · intro challenge other
    rw [coherent.live challenge other]
    refine ⟨Or.inr, ?_⟩
    rintro (⟨rfl, rfl⟩ | earlier)
    · exact (coherent.live _ _).mp mapped
    · exact earlier
  · intro key challenge held
    obtain ⟨other, root, payout, keyEq, otherHex, member, otherMapped⟩ :=
      coherent.outstanding key challenge held
    exact ⟨other, root, payout, keyEq, otherHex, List.mem_cons_of_mem _ member, otherMapped⟩
  · intro other root payout challenge member
    cases member with
    | head => exact hex
    | tail _ earlier => exact coherent.tips other root payout challenge earlier
  · intro one first payer other second payee challenge left right
    cases left with
    | head =>
        cases right with
        | head => rfl
        | tail _ right =>
            exact keyEq.trans (coherent.keys _ _ _ _ _ _ _ issued right)
    | tail _ left =>
        cases right with
        | head => exact (keyEq.trans (coherent.keys _ _ _ _ _ _ _ issued left)).symm
        | tail _ right => exact coherent.keys _ _ _ _ _ _ _ left right

/-- What is drawn for a key is new in both maps. -/
theorem draw (coherent : Coherent node past) {tip merkle miner new : Text} (hex : HexTip tip)
    (unseen : ¬Drawn past new) :
    Coherent
      { node with
        challenges := node.challenges.insert new tip
        outstanding := node.outstanding.insert (challengeKey tip merkle miner) new }
      (returned tip merkle miner new :: past) := by
  have notReturned {other root payout : Text} : returned other root payout new ∉ past :=
    fun member => unseen ⟨other, root, payout, member⟩
  refine ⟨?_, ?_, ?_, ?_⟩
  · intro challenge other
    change (node.challenges.insert new tip).lookup challenge = some other ↔
      (challenge = new ∧ other = tip) ∨ Live past challenge other
    by_cases drawn : challenge = new
    · subst drawn
      rw [AList.lookup_insert, Option.some.injEq]
      constructor
      · intro same
        exact Or.inl ⟨rfl, same.symm⟩
      · rintro (⟨_, same⟩ | earlier)
        · exact same.symm
        · exact absurd earlier.drawn unseen
    · rw [AList.lookup_insert_ne drawn, coherent.live challenge other]
      constructor
      · exact Or.inr
      · rintro (⟨same, _⟩ | earlier)
        · exact absurd same drawn
        · exact earlier
  · intro key challenge held
    change (node.outstanding.insert (challengeKey tip merkle miner) new).lookup key =
      some challenge at held
    by_cases same : key = challengeKey tip merkle miner
    · subst same
      rw [AList.lookup_insert] at held
      obtain rfl := Option.some.inj held
      exact ⟨tip, merkle, miner, rfl, hex, List.mem_cons_self, AList.lookup_insert _⟩
    · rw [AList.lookup_insert_ne same] at held
      obtain ⟨other, root, payout, keyEq, otherHex, member, mapped⟩ :=
        coherent.outstanding key challenge held
      have older : challenge ≠ new := by
        rintro rfl
        exact notReturned member
      exact ⟨other, root, payout, keyEq, otherHex, List.mem_cons_of_mem _ member,
        (AList.lookup_insert_ne older).trans mapped⟩
  · intro other root payout challenge member
    cases member with
    | head => exact hex
    | tail _ earlier => exact coherent.tips other root payout challenge earlier
  · intro one first payer other second payee challenge left right
    cases left with
    | head =>
        cases right with
        | head => rfl
        | tail _ right => exact absurd right notReturned
    | tail _ left =>
        cases right with
        | head => exact absurd left notReturned
        | tail _ right => exact coherent.keys _ _ _ _ _ _ _ left right

end Coherent

/-- Every run keeps the two maps coherent. -/
theorem CacheRun.coherent {node : Node} {past : List CacheEvent} (run : CacheRun node past) :
    Coherent node past := by
  induction run with
  | start noChallenges noOutstanding =>
      refine ⟨?_, ?_, ?_, ?_⟩
      · intro challenge tip
        rw [noChallenges]
        exact iff_of_false (fun found => nomatch found) id
      · intro key challenge held
        rw [noOutstanding] at held
        exact nomatch held
      · intro tip merkle miner challenge member
        exact nomatch member
      · intro tip merkle miner other root payout challenge member
        exact nomatch member
  | template moment _ hex fresh ih =>
      rcases challengeForTemplate_cases fresh with ⟨found, same, result⟩ | ⟨new, _, unseen, result⟩
      · rw [result]
        exact ih.again hex same
      · rw [result]
        exact ih.draw hex unseen
  | ask challenge tip _ ih => exact ih.ask challenge tip _
  | retire gone _ ih => exact ih.retire gone

/-! ## Whole runs -/

/-- A run up to one of its events. -/
theorem CacheRun.until_event {node : Node} {events newer older : List CacheEvent}
    {event : CacheEvent}
    (run : CacheRun node events) (parted : events = newer ++ event :: older) :
    ∃ earlier, CacheRun earlier (event :: older) := by
  induction newer generalizing node events with
  | nil =>
      subst parted
      exact ⟨node, run⟩
  | cons first newer ih =>
      cases run with
      | start => exact nomatch parted
      | template _ before => exact ih before (List.cons.inj parted).2
      | ask _ _ before => exact ih before (List.cons.inj parted).2
      | retire _ before => exact ih before (List.cons.inj parted).2

/-- What a template call returns is outstanding for its key. -/
theorem outstanding_challengeForTemplate {moment : Moment} {node : Node} {tip merkle miner : Text}
    {past : List CacheEvent}
    (fresh : node.outstanding.lookup (challengeKey tip merkle miner) = none →
      ∃ raw, moment.fresh = some raw ∧ ¬Drawn past (toHex raw)) :
    (challengeForTemplate moment node tip merkle miner).2.outstanding.lookup
        (challengeKey tip merkle miner) =
      some (challengeForTemplate moment node tip merkle miner).1 := by
  rcases challengeForTemplate_cases fresh with ⟨found, same, result⟩ | ⟨new, _, _, result⟩
  · rw [result]
    exact same
  · rw [result]
    exact AList.lookup_insert _

/-- A template call leaves what is outstanding. -/
theorem outstanding_challengeForTemplate_other {moment : Moment} {node : Node}
    {tip merkle miner key challenge : Text} {past : List CacheEvent}
    (fresh : node.outstanding.lookup (challengeKey tip merkle miner) = none →
      ∃ raw, moment.fresh = some raw ∧ ¬Drawn past (toHex raw))
    (held : node.outstanding.lookup key = some challenge) :
    (challengeForTemplate moment node tip merkle miner).2.outstanding.lookup key =
      some challenge := by
  rcases challengeForTemplate_cases fresh with ⟨found, same, result⟩ | ⟨new, none, _, result⟩
  · rw [result]
    exact held
  · rw [result]
    have other : key ≠ challengeKey tip merkle miner := by
      rintro rfl
      exact nomatch held.symm.trans none
    exact (AList.lookup_insert_ne other).trans held

/-- A challenge stays outstanding for its key until one of its tip is retired. -/
theorem CacheRun.outstanding_kept {node : Node} {events between older : List CacheEvent}
    {tip merkle miner challenge : Text} (run : CacheRun node events)
    (parted : events = between ++ returned tip merkle miner challenge :: older)
    (spared : ∀ later gone earlier, between = later ++ retired gone :: earlier →
      ¬Live (earlier ++ returned tip merkle miner challenge :: older) gone tip) :
    node.outstanding.lookup (challengeKey tip merkle miner) = some challenge := by
  induction run generalizing between with
  | start => exact absurd parted.symm (List.append_ne_nil_of_right_ne_nil _ (List.cons_ne_nil _ _))
  | template moment _ hex fresh ih =>
      cases between with
      | nil =>
          obtain ⟨event, rfl⟩ := List.cons.inj parted
          injection event with tips roots miners result
          subst tips roots miners result
          exact outstanding_challengeForTemplate fresh
      | cons event between =>
          refine outstanding_challengeForTemplate_other fresh (ih (List.cons.inj parted).2 ?_)
          intro later gone earlier here
          exact spared (event :: later) gone earlier (congrArg (event :: ·) here)
  | ask _ _ _ ih =>
      cases between with
      | nil => exact nomatch (List.cons.inj parted).1
      | cons event between =>
          refine ih (List.cons.inj parted).2 ?_
          intro later gone earlier here
          exact spared (event :: later) gone earlier (congrArg (event :: ·) here)
  | retire gone before ih =>
      cases between with
      | nil => exact nomatch (List.cons.inj parted).1
      | cons event between =>
          obtain ⟨rfl, rest⟩ := List.cons.inj parted
          subst rest
          have coherent := before.coherent
          have hex : HexTip tip := coherent.tips tip merkle miner challenge
            (List.mem_append_right between List.mem_cons_self)
          refine (outstanding_retireChallenge hex fun issuedFor found =>
            coherent.tip_of_lookup found).mpr ⟨ih rfl ?_, ?_⟩
          · intro later other earlier here
            exact spared (retired gone :: later) other earlier (congrArg (retired gone :: ·) here)
          · rw [ne_eq, coherent.live gone tip]
            exact spared [] gone between rfl

/-- The challenge cache, after calls in any order. A key gets its challenge again until a
challenge of its tip is retired, different keys get different challenges, a challenge is known
for a tip exactly while it is live, and what is outstanding is known for the tip of its key. -/
theorem challenge_cache {node : Node} {events : List CacheEvent} (run : CacheRun node events) :
    (∀ newer between older tip merkle miner first second,
      events = newer ++ returned tip merkle miner second ::
        (between ++ returned tip merkle miner first :: older) →
      (∀ later gone earlier, between = later ++ retired gone :: earlier →
        ¬Live (earlier ++ returned tip merkle miner first :: older) gone tip) →
      second = first) ∧
    (∀ tip merkle miner other root payout first second,
      returned tip merkle miner first ∈ events → returned other root payout second ∈ events →
      challengeKey tip merkle miner ≠ challengeKey other root payout ∨
        ('|' ∉ merkle ∧ '|' ∉ root ∧ (tip, merkle, miner) ≠ (other, root, payout)) →
      first ≠ second) ∧
    (∀ newer challenge tip answer older,
      events = newer ++ asked challenge tip answer :: older →
      (answer = true ↔ Live older challenge tip)) ∧
    ∀ key challenge, node.outstanding.lookup key = some challenge →
      ∃ tip merkle miner, key = challengeKey tip merkle miner ∧ HexTip tip ∧
        node.challenges.lookup challenge = some tip := by
  have coherent := run.coherent
  refine ⟨?_, ?_, ?_, ?_⟩
  · intro newer between older tip merkle miner first second parted spared
    obtain ⟨later, upTo⟩ := run.until_event parted
    cases upTo with
    | template moment before hex fresh =>
        rw [challengeForTemplate, before.outstanding_kept rfl spared]
  · intro tip merkle miner other root payout first second one two different same
    subst same
    have keys := coherent.keys tip merkle miner other root payout first one two
    rcases different with apart | ⟨plain, otherPlain, apart⟩
    · exact apart keys
    · obtain ⟨rfl, rfl, rfl⟩ := challengeKey_inj (coherent.tips _ _ _ _ one)
        (coherent.tips _ _ _ _ two) plain otherPlain keys
      exact apart rfl
  · intro newer challenge tip answer older parted
    obtain ⟨later, upTo⟩ := run.until_event parted
    cases upTo with
    | ask _ _ before =>
        rw [challengeWasIssued, beq_iff_eq]
        exact before.coherent.live challenge tip
  · intro key challenge held
    obtain ⟨tip, merkle, miner, keyEq, hex, _, mapped⟩ := coherent.outstanding key challenge held
    exact ⟨tip, merkle, miner, keyEq, hex, mapped⟩

/-! ## A run -/

/-- A moment that draws zeros. -/
private def zeroMoment : Moment := { sampleMoment with fresh := some Digest.zero }

/-- The first template of a node, for any key. -/
private theorem firstTemplate (merkle miner : Text) :
    CacheRun
      (challengeForTemplate zeroMoment (Node.empty fun _ => none) (toHex Digest.zero) merkle
        miner).2
      [returned (toHex Digest.zero) merkle miner (toHex Digest.zero)] := by
  refine CacheRun.template zeroMoment (CacheRun.start rfl rfl) (hexTip_toHex Digest.zero) fun _ =>
    ⟨Digest.zero, rfl, ?_⟩
  rintro ⟨_, _, _, member⟩
  exact nomatch member

/-- The challenge that an event returns. -/
private def CacheEvent.given : CacheEvent → Option Text
  | returned _ _ _ challenge => some challenge
  | _ => none

private theorem drawn_iff {past : List CacheEvent} {challenge : Text} :
    Drawn past challenge ↔ challenge ∈ past.filterMap CacheEvent.given := by
  rw [List.mem_filterMap]
  constructor
  · rintro ⟨tip, merkle, miner, member⟩
    exact ⟨_, member, rfl⟩
  · rintro ⟨event, member, given⟩
    cases event with
    | returned tip merkle miner other =>
        cases given
        exact ⟨tip, merkle, miner, member⟩
    | asked => cases given
    | retired => cases given

/-- A moment that draws a byte, and the challenge that it leads to. -/
private def drawing (byte : UInt8) : Moment :=
  { sampleMoment with fresh := some (Digest.ofPrefix [byte]) }

private def drawn (byte : UInt8) : Text := toHex (Digest.ofPrefix [byte])

/-- A template call on the first block. -/
private def templateCall (byte : UInt8) (merkle : Text) (node : Node) : Text × Node :=
  challengeForTemplate (drawing byte) node (toHex openingHash) merkle "m".toList

private theorem CacheRun.templateCall {node : Node} {past : List CacheEvent} {byte : UInt8}
    {merkle challenge : Text} (run : CacheRun node past)
    (returns : (templateCall byte merkle node).1 = challenge)
    (fresh : drawn byte ∉ past.filterMap CacheEvent.given) :
    CacheRun (templateCall byte merkle node).2
      (returned (toHex openingHash) merkle "m".toList challenge :: past) := by
  rw [← returns]
  exact .template (drawing byte) run (hexTip_toHex openingHash)
    fun _ => ⟨Digest.ofPrefix [byte], rfl, drawn_iff.not.mpr fresh⟩

/-- The node after templates for two keys, and for the first one again. -/
private def askedNode : Node :=
  (templateCall 3 "a".toList (templateCall 2 "b".toList
    (templateCall 1 "a".toList (Node.empty fun _ => none)).2).2).2

/-- Templates for two keys, and for the first one again. -/
private def askedEvents : List CacheEvent :=
  [returned (toHex openingHash) "a".toList "m".toList (drawn 1),
    returned (toHex openingHash) "b".toList "m".toList (drawn 2),
    returned (toHex openingHash) "a".toList "m".toList (drawn 1)]

/-- A question, a retirement of the challenge of the other key, and a question again. -/
private def retiredEvents : List CacheEvent :=
  asked (drawn 1) (toHex openingHash) false :: retired (drawn 2) ::
    asked (drawn 1) (toHex openingHash) true :: askedEvents

private theorem askedEvents_run : CacheRun askedNode askedEvents := by
  have one : (templateCall 1 "a".toList (Node.empty fun _ => none)).1 = drawn 1 := by
    decide +kernel
  have two : (templateCall 2 "b".toList
      (templateCall 1 "a".toList (Node.empty fun _ => none)).2).1 = drawn 2 := by
    decide +kernel
  have again : (templateCall 3 "a".toList (templateCall 2 "b".toList
      (templateCall 1 "a".toList (Node.empty fun _ => none)).2).2).1 = drawn 1 := by
    decide +kernel
  have empty : CacheRun (Node.empty fun _ => none) [] := .start rfl rfl
  exact ((empty.templateCall one List.not_mem_nil).templateCall two
    (by decide +kernel)).templateCall again (by decide +kernel)

private theorem retiredEvents_run :
    CacheRun (retireChallenge askedNode (drawn 2)) retiredEvents := by
  have known : challengeWasIssued askedNode (drawn 1) (toHex openingHash) = true := by
    decide +kernel
  have gone : challengeWasIssued (retireChallenge askedNode (drawn 2)) (drawn 1)
      (toHex openingHash) = false := by
    decide +kernel
  have asked := askedEvents_run.ask (drawn 1) (toHex openingHash)
  rw [known] at asked
  have after := (asked.retire (drawn 2)).ask (drawn 1) (toHex openingHash)
  rw [gone] at after
  exact after

/-- A challenge is known until one of its tip is retired, and another key has another one. -/
theorem challenge_cache_retired :
    ∃ node, CacheRun node retiredEvents ∧ drawn 1 ≠ drawn 2 ∧
      Live askedEvents (drawn 1) (toHex openingHash) ∧
      ¬Live (retired (drawn 2) :: asked (drawn 1) (toHex openingHash) true :: askedEvents) (drawn 1)
        (toHex openingHash) := by
  obtain ⟨_, apart, answers, _⟩ := challenge_cache retiredEvents_run
  have keys : challengeKey (toHex openingHash) "a".toList "m".toList ≠
      challengeKey (toHex openingHash) "b".toList "m".toList := by
    decide +kernel
  refine ⟨_, retiredEvents_run, ?_, ?_, ?_⟩
  · exact apart _ _ _ _ _ _ _ _ (by simp [retiredEvents, askedEvents])
      (by simp [retiredEvents, askedEvents]) (.inl keys)
  · exact (answers [_, _] _ _ _ _ rfl).mp rfl
  · exact fun live => nomatch (answers [] _ _ _ _ rfl).mpr live

/-- Two keys with a bar inside that read the same share a challenge. -/
theorem barred_keys_share :
    ¬∀ (node : Node) (events : List CacheEvent), CacheRun node events →
      ∀ tip merkle miner other root payout first second,
        returned tip merkle miner first ∈ events → returned other root payout second ∈ events →
        (tip, merkle, miner) ≠ (other, root, payout) → first ≠ second := by
  intro apart
  have run := @CacheRun.template _ _ (toHex Digest.zero) "a".toList "b|c".toList zeroMoment
    (firstTemplate "a|b".toList "c".toList) (hexTip_toHex Digest.zero) (by
      intro none
      exact absurd none (by decide +kernel))
  exact apart _ _ run _ _ _ _ _ _ _ _ List.mem_cons_self
    (List.mem_cons_of_mem _ List.mem_cons_self) (by decide +kernel) (by decide +kernel)

end PiSecure
