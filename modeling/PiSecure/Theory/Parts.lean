import PiSecure.Model.Machine

/-! # The parts of a call

An adoption is a replay, some submissions and maybe a second replay, and a block
message with JSON is a submission and maybe an adoption. So every run of the node
is a run of single calls, with the same connected blocks and the same end.
-/

namespace PiSecure

variable {host : Host}

/-- Whether a call has no parts but itself. -/
def Call.isSingle : Call → Prop
  | .adoptPeerChain _ _ _ => False
  | .peerBlock _ _ payload => isJsonBody payload = false
  | _ => True

/-- The submissions of an adoption, up to the first that is not accepted. -/
def blockParts (host : Host) (moments : Nat → Moment) : Nat → Node → List Json → List Call
  | _, _, [] => []
  | turn, node, block :: rest =>
      .submitBlock (moments turn) false block ::
        match rpcSubmitblock host (moments turn) false node block with
        | (next, .accepted _ _ _) => blockParts host moments (turn + 1) next rest
        | (_, .refused _) => []

/-- The replay of the old tip when a block was rejected. -/
def settleParts (moment : Moment) (oldTip : Option Digest) : Status → List Call
  | .failed =>
      match oldTip with
      | none => []
      | some tip => [.replayChain moment tip]
  | _ => []

/-- The replay that an adoption starts with, unless the node is at the ancestor. -/
def startParts (moment : Moment) (node : Node) (ancestor : Digest) : List Call :=
  if tipOf node.storage = some ancestor then [] else [.replayChain moment ancestor]

/-- The parts of an adoption. -/
def adoptionParts (host : Host) (moments : Nat → Moment) (node : Node) (ancestor : Digest)
    (blocks : List Json) : List Call :=
  match adoptionStart host (moments 0) node ancestor blocks with
  | .error _ => []
  | .ok (based, .done) =>
      startParts (moments 0) node ancestor ++ (blockParts host moments 1 based blocks ++
        settleParts (moments (blocks.length + 1)) (tipOf node.storage)
          (adoptBlocks host moments 1 based blocks).2)
  | .ok _ => startParts (moments 0) node ancestor

/-- The parts of a block message with JSON. -/
def jsonBlockParts (host : Host) (moments : Nat → Moment) (held : Option (Digest × List Json))
    (node : Node) (block : Json) : List Call :=
  .submitBlock (moments 0) false block ::
    match rpcSubmitblock host (moments 0) false node block, held with
    | (next, .refused (.reason reason)), some (ancestor, blocks) =>
        if offTip reason ∧ (block.valueOr "hash" Json.asText? []).isSome then
          adoptionParts host (fun turn => moments (turn + 1)) next ancestor blocks
        else []
    | _, _ => []

/-- The parts of a call. -/
def parts (host : Host) (node : Node) : Call → List Call
  | .adoptPeerChain moments ancestor blocks => adoptionParts host moments node ancestor blocks
  | .peerBlock moments held payload =>
      if ¬isJsonBody payload then [.peerBlock moments held payload]
      else if payload.length > kMaxBlockBytes then []
      else
        match host.parse payload with
        | none => []
        | some block => jsonBlockParts host moments held node block
  | call => [call]

/-! ## The parts are single calls -/

section Single

theorem blockParts_single {moments : Nat → Moment} {turn : Nat} {node : Node} {blocks : List Json} :
    ∀ part ∈ blockParts host moments turn node blocks, part.isSingle := by
  induction blocks generalizing turn node with
  | nil => exact fun _ impossible => nomatch impossible
  | cons block rest ih =>
      rw [blockParts, List.forall_mem_cons]
      refine ⟨trivial, ?_⟩
      split
      · exact ih
      · exact fun _ impossible => nomatch impossible

theorem settleParts_single {moment : Moment} {oldTip : Option Digest} {status : Status} :
    ∀ part ∈ settleParts moment oldTip status, part.isSingle := by
  cases status <;> cases oldTip <;> simp [settleParts, Call.isSingle]

theorem startParts_single {moment : Moment} {node : Node} {ancestor : Digest} :
    ∀ part ∈ startParts moment node ancestor, part.isSingle := by
  unfold startParts
  split <;> simp [Call.isSingle]

theorem adoptionParts_single {moments : Nat → Moment} {node : Node} {ancestor : Digest}
    {blocks : List Json} :
    ∀ part ∈ adoptionParts host moments node ancestor blocks, part.isSingle := by
  unfold adoptionParts
  split
  · exact fun _ impossible => nomatch impossible
  · intro part member
    rcases List.mem_append.mp member with atStart | later
    · exact startParts_single part atStart
    · rcases List.mem_append.mp later with submitted | atEnd
      · exact blockParts_single part submitted
      · exact settleParts_single part atEnd
  · exact startParts_single

theorem parts_single (host : Host) (node : Node) (call : Call) :
    ∀ part ∈ parts host node call, part.isSingle := by
  cases call with
  | adoptPeerChain moments ancestor blocks => exact adoptionParts_single
  | peerBlock moments held payload =>
      unfold parts
      dsimp only
      split
      next plain => simpa [Call.isSingle] using plain
      · split
        · exact fun _ impossible => nomatch impossible
        · split
          · exact fun _ impossible => nomatch impossible
          · unfold jsonBlockParts
            rw [List.forall_mem_cons]
            refine ⟨trivial, ?_⟩
            split
            · split
              · exact adoptionParts_single
              · exact fun _ impossible => nomatch impossible
            · exact fun _ impossible => nomatch impossible
  | _ => simp [parts, Call.isSingle]

end Single

/-! ## A call does what its parts do -/

section Play

theorem play_blockParts (moments : Nat → Moment) (turn : Nat) (node : Node) (blocks : List Json) :
    (nodeMachine host).play node (blockParts host moments turn node blocks) =
      some (adoptConnections host moments turn node blocks,
        (adoptBlocks host moments turn node blocks).1) := by
  induction blocks generalizing turn node with
  | nil => rfl
  | cons block rest ih =>
      have first : (nodeMachine host).step node (.submitBlock (moments turn) false block) =
          some (rpcSubmitblock host (moments turn) false node block).1 := rfl
      rw [blockParts, adoptConnections, adoptBlocks, Machine.play, first, Option.bind_some]
      rcases rpcSubmitblock host (moments turn) false node block with ⟨next, verdict⟩
      cases verdict with
      | accepted hash height duplicate =>
          dsimp only
          rw [ih]
          rfl
      | refused refusal => cases refusal <;> rfl

theorem play_settleParts (moment : Moment) (oldTip : Option Digest) (blocks : List Json)
    (adopted : Node × Status) :
    (nodeMachine host).play adopted.1 (settleParts moment oldTip adopted.2) =
      some ([], (settleAdoption host moment oldTip blocks adopted).1) := by
  obtain ⟨node, status⟩ := adopted
  cases status with
  | done =>
      unfold settleAdoption
      dsimp only
      split <;> rfl
  | thrown => rfl
  | failed =>
      cases oldTip with
      | none => rfl
      | some tip =>
          have replayed : (nodeMachine host).step node (.replayChain moment tip) =
              some (rpcReplayChain host moment node tip).1 := rfl
          rw [settleParts, Machine.play_singleton replayed, settleAdoption]
          rcases rpcReplayChain host moment node tip with ⟨final, status⟩
          cases status <;> rfl

theorem play_startParts {moment : Moment} {node based : Node} {ancestor : Digest}
    {blocks : List Json} {status : Status}
    (started : adoptionStart host moment node ancestor blocks = .ok (based, status)) :
    (nodeMachine host).play node (startParts moment node ancestor) = some ([], based) := by
  unfold adoptionStart at started
  split at started
  · cases started
  · split at started
    · cases started
    · split at started
      · cases started
      · split at started
        · cases started
        · unfold startParts
          split at started
          next atAncestor =>
            rw [if_pos atAncestor]
            cases started
            rfl
          next elsewhere =>
            rw [if_neg elsewhere, @Machine.play_singleton _ _ _ _ _ based]
            · rfl
            · exact congrArg (fun replayed : Node × Status => some replayed.1)
                (Except.ok.inj started)

theorem play_adoptionParts (moments : Nat → Moment) (node : Node) (ancestor : Digest)
    (blocks : List Json) :
    (nodeMachine host).play node (adoptionParts host moments node ancestor blocks) =
      some (adoptionConnections host moments node ancestor blocks,
        (rpcAdoptPeerChain host moments node ancestor blocks).1) := by
  unfold adoptionParts adoptionConnections rpcAdoptPeerChain
  rcases started : adoptionStart host (moments 0) node ancestor blocks with status | ⟨based, status⟩
  · rfl
  · have begun := play_startParts started
    cases status with
    | done =>
        have settled := Machine.play_append (play_blockParts moments 1 based blocks)
          (play_settleParts (moments (blocks.length + 1)) (tipOf node.storage) blocks
            (adoptBlocks host moments 1 based blocks))
        have whole := Machine.play_append begun settled
        rwa [List.nil_append, List.append_nil] at whole
    | failed => exact begun
    | thrown => exact begun

theorem play_jsonBlockParts (moments : Nat → Moment) (held : Option (Digest × List Json))
    (node : Node) (block : Json) :
    (nodeMachine host).play node (jsonBlockParts host moments held node block) =
      some (jsonBlockConnections host moments held node block,
        handleJsonBlock host moments held node block) := by
  have first : (nodeMachine host).step node (.submitBlock (moments 0) false block) =
      some (rpcSubmitblock host (moments 0) false node block).1 := rfl
  unfold jsonBlockParts jsonBlockConnections handleJsonBlock
  rw [Machine.play, first, Option.bind_some]
  rcases rpcSubmitblock host (moments 0) false node block with ⟨next, verdict⟩
  cases verdict with
  | accepted hash height duplicate => rfl
  | refused refusal =>
      cases refusal with
      | thrown => rfl
      | reason reason =>
          cases held with
          | none =>
              dsimp only
              rw [ite_self]
              rfl
          | some candidate =>
              obtain ⟨ancestor, blocks⟩ := candidate
              dsimp only
              split
              · rw [play_adoptionParts]
                rfl
              · rfl

/-- A call does what its parts do one after the other, and connects the same blocks. -/
theorem play_parts {node next : Node} {call : Call}
    (stepped : stepNode host node call = some next) :
    (nodeMachine host).play node (parts host node call) =
      some (connections host node call, next) := by
  have itself : (nodeMachine host).play node [call] = some (connections host node call, next) :=
    Machine.play_singleton stepped
  cases call with
  | adoptPeerChain moments ancestor blocks =>
      cases stepped
      exact play_adoptionParts moments node ancestor blocks
  | peerBlock moments held payload =>
      unfold parts
      dsimp only
      by_cases json : isJsonBody payload = true
      · rw [if_neg (not_not.mpr json)]
        cases stepped
        unfold connections handleBlock
        dsimp only
        rw [if_pos json]
        by_cases small : payload.length ≤ kMaxBlockBytes
        · rw [if_neg (Nat.not_lt.mpr small), if_neg (Nat.not_lt.mpr small), if_pos ⟨json, small⟩]
          cases host.parse payload with
          | none => rfl
          | some block => exact play_jsonBlockParts moments held node block
        · rw [if_pos (Nat.lt_of_not_le small), if_pos (Nat.lt_of_not_le small),
            if_neg fun both => small both.2]
          rfl
      · rw [if_pos json]
        exact itself
  | _ => exact itself

end Play

/-! ## Runs of single calls -/

/-- **Single calls.** Every run is a run of single calls with the same connected blocks
and the same end; each of them meets what the parts of the calls meet. -/
theorem runs_of_parts {allowed finer : Node → Call → Prop} {start final : Node} {calls : List Call}
    {log : List (Accepted host)}
    (permits : ∀ node call, allowed node call →
      (nodeMachine host).Permits finer node (parts host node call))
    (run : (nodeMachine host).Runs allowed start calls log final) :
    ∃ pieces, (nodeMachine host).Runs (fun node call => call.isSingle ∧ finer node call) start
      pieces
      log final :=
  run.refined (fun stepped => play_parts stepped) fun {node call} allowed =>
    (Machine.Permits.of_forall fun part member _ => parts_single host node call part member).and
      (permits node call allowed)

/-- Every run is a run of single calls. -/
theorem runs_of_single_calls {allowed : Node → Call → Prop} {start final : Node} {calls : List Call}
    {log : List (Accepted host)} (run : (nodeMachine host).Runs allowed start calls log final) :
    ∃ pieces, (nodeMachine host).Runs (fun _ call => call.isSingle ∧ True) start pieces log final :=
  runs_of_parts (fun _ _ _ => Machine.Permits.of_forall fun _ _ _ => trivial) run

end PiSecure
