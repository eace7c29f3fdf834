import PiSecure.Theory.Handshake
import PiSecure.Theory.HeldBodies

/-! # The node behind a server

Whatever the threads of a server do, its node moves by calls of the node, and the bodies that
it holds move by messages and removals. So what holds of every run of the node, and of every
run of the held blocks, holds of every server.
-/

namespace PiSecure

variable {host : Host} {turn : Turn} {turns : Nat → Turn} {place : Nat}

/-! ## Servers that only send -/

/-- A server with the node of another one, and with what it holds. -/
structure SameNode (server next : P2PServer) : Prop where
  node : next.node = server.node
  branches : next.branches = server.branches

namespace SameNode

variable {server middle next : P2PServer}

theorem refl (server : P2PServer) : SameNode server server := ⟨rfl, rfl⟩

theorem trans (one : SameNode server middle) (more : SameNode middle next) :
    SameNode server next :=
  ⟨more.node.trans one.node, more.branches.trans one.branches⟩

theorem after (same : SameNode middle next) (node : middle.node = server.node)
    (branches : middle.branches = server.branches) : SameNode server next :=
  trans ⟨node, branches⟩ same

/-- A fold of changes that leave the node leaves it. -/
theorem foldl {Item : Type} {change : P2PServer → Item → P2PServer}
    (keeps : ∀ server item, SameNode server (change server item)) (items : List Item)
    (server : P2PServer) : SameNode server (items.foldl change server) := by
  induction items generalizing server with
  | nil => exact .refl server
  | cons item rest ih => exact (keeps server item).trans (ih _)

end SameNode

namespace P2PServer

variable {server : P2PServer} {peer : Session}

theorem change_same (server : P2PServer) (place : Nat) (change : Session → Session) :
    SameNode server (server.update place change) := ⟨rfl, rfl⟩

theorem sendToAll_same (server : P2PServer) (type : P2PMsgType) (payload : Bytes) :
    SameNode server (server.sendToAll type payload) := ⟨rfl, rfl⟩

theorem refreshHeight_same (server : P2PServer) : SameNode server server.refreshHeight := by
  unfold refreshHeight
  split <;> exact ⟨rfl, rfl⟩

theorem gossipBlock_same (server : P2PServer) (raw : Bytes) (hash : Digest) :
    SameNode server (server.gossipBlock raw hash) := by
  have announced : SameNode server (server.refreshHeight.broadcastInv .block hash) :=
    server.refreshHeight_same.trans (sendToAll_same _ _ _)
  unfold gossipBlock
  dsimp only
  split
  · exact announced
  · exact announced.trans (sendToAll_same _ _ _)

theorem gossipConnection_same (server : P2PServer) (connected : List (Accepted host)) :
    SameNode server (server.gossipConnection connected) :=
  .foldl (fun server _ => server.gossipBlock_same _ _) connected server

theorem gossipBody_same (server : P2PServer) (body : Json) :
    SameNode server (server.gossipBody body) := by
  unfold gossipBody
  split
  · exact .refl server
  · exact server.gossipBlock_same _ _

theorem sendVersion_same (turn : Turn) (server : P2PServer) (place : Nat) :
    SameNode server (server.sendVersion turn place) := by
  unfold sendVersion
  split
  · exact .refl server
  split
  · exact .refl server
  · exact server.refreshHeight_same.trans (change_same _ _ _)

theorem sendVerack_same (server : P2PServer) (place : Nat) :
    SameNode server (server.sendVerack place) := by
  unfold sendVerack
  split
  · exact .refl server
  split
  · exact .refl server
  · exact server.change_same _ _

theorem dialDirectoryPeers_same (turn : Turn) (server : P2PServer) :
    SameNode server (server.dialDirectoryPeers turn) := by
  unfold dialDirectoryPeers
  split
  · exact server.refreshHeight_same
  · exact .refl server

theorem handleVersion_same (server : P2PServer) (payload : Bytes) :
    SameNode server (server.handleVersion turn place peer payload) := by
  unfold handleVersion
  split
  · exact .refl server
  split
  · exact .refl server
  · exact server.change_same _ _
  next message _ =>
    dsimp only
    have read := server.change_same place (readVersion turn message)
    split
    · exact read.trans (change_same _ _ _)
    split
    · exact (read.trans (sendVerack_same _ _)).trans (sendVersion_same _ _ _)
    · exact read.trans (sendVerack_same _ _)

theorem handleVerack_same (server : P2PServer) :
    SameNode server (server.handleVerack turn place peer) := by
  unfold handleVerack
  split
  · exact .refl server
  dsimp only
  have told : SameNode server
      (((server.update place completeHandshake).update place
        (sendAddr ((server.update place completeHandshake).known turn.now 1000))).exchangeAddresses
          turn) := ⟨rfl, rfl⟩
  have dialed := told.trans (dialDirectoryPeers_same turn _)
  split
  · exact dialed.trans (change_same _ _ _)
  · exact dialed

theorem handleAddr_same (server : P2PServer) (payload : Bytes) :
    SameNode server (server.handleAddr turn payload) := by
  unfold handleAddr
  split
  · exact (dialDirectoryPeers_same turn _).after rfl rfl
  · exact .refl server

theorem handleInv_same (server : P2PServer) (payload : Bytes) :
    SameNode server (server.handleInv place peer payload) := by
  unfold handleInv
  split
  · exact .refl server
  · exact server.change_same _ _
  dsimp only
  split
  · exact server.change_same _ _
  · exact (server.change_same _ _).trans (change_same _ _ _)

theorem handleGetData_same (server : P2PServer) (payload : Bytes) :
    SameNode server (server.handleGetData place payload) := by
  unfold handleGetData
  split
  · exact .refl server
  · exact server.change_same _ _
  · exact .foldl (fun server _ => server.change_same _ _) _ server

theorem handleGetHeaders_same (server : P2PServer) (payload : Bytes) :
    SameNode server (server.handleGetHeaders turn place payload) := by
  unfold handleGetHeaders
  split
  · exact .refl server
  · exact server.change_same _ _
  dsimp only
  split
  · exact .refl server
  · exact server.change_same _ _

theorem handleHeaders_same (server : P2PServer) (payload : Bytes) :
    SameNode server (server.handleHeaders place peer payload) := by
  unfold handleHeaders
  split
  · exact .refl server
  · exact server.change_same _ _
  split
  · exact server.change_same _ _
  split
  · split
    · exact .refl server
    · exact server.change_same _ _
  · exact server.change_same _ _
  next blocks _ =>
    dsimp only
    have asked : SameNode server (if blocks.isEmpty then server
        else server.send place .getdata (serializeGetData blocks)) := by
      split
      · exact .refl server
      · exact server.change_same _ _
    split
    · exact asked.trans (change_same _ _ _)
    · exact asked

theorem handlePing_same (server : P2PServer) (payload : Bytes) :
    SameNode server (server.handlePing place payload) := by
  unfold handlePing
  split
  · exact server.change_same _ _
  · exact .refl server

end P2PServer

/-! ## The calls behind a step -/

/-- Calls of the node, and calls of the held blocks, lead from one server to another. -/
structure Follows (host : Host) (server next : P2PServer) : Prop where
  node : ∃ calls log, (nodeMachine host).Runs (fun _ _ => True) server.node calls log next.node
  held : ∃ calls log, heldMachine.Runs (fun _ _ => True) server.branches.heldBlocks calls log
    next.branches.heldBlocks

namespace Follows

variable {server middle next : P2PServer}

theorem refl (server : P2PServer) : Follows host server server :=
  ⟨⟨_, _, .nil⟩, ⟨_, _, .nil⟩⟩

theorem trans (one : Follows host server middle) (more : Follows host middle next) :
    Follows host server next := by
  obtain ⟨⟨_, _, nodeRun⟩, _, _, heldRun⟩ := one
  obtain ⟨⟨_, _, nodeMore⟩, _, _, heldMore⟩ := more
  exact ⟨⟨_, _, nodeRun.trans nodeMore⟩, ⟨_, _, heldRun.trans heldMore⟩⟩

/-- One call of the node. -/
theorem call (call : Call) (stepped : stepNode host server.node call = some next.node)
    (branches : next.branches = server.branches) : Follows host server next := by
  refine ⟨⟨_, _, Machine.Runs.nil.snoc call trivial stepped⟩, ?_⟩
  rw [branches]
  exact ⟨_, _, .nil⟩

end Follows

theorem SameNode.follows {server next : P2PServer} (same : SameNode server next) :
    Follows host server next := by
  refine ⟨?_, ?_⟩
  · rw [same.node]
    exact ⟨_, _, .nil⟩
  · rw [same.branches]
    exact ⟨_, _, .nil⟩

namespace P2PServer

variable {server : P2PServer} {peer : Session}

/-- The gossip after a choice leaves the node and what is held. -/
theorem adoptLater_eq (turn : Turn) (moments : Nat → Moment) (server : P2PServer) :
    (server.adoptLater host turn moments).branches =
        (adoptLaterPeerChain host turn.now moments server.branches server.node).1 ∧
      (server.adoptLater host turn moments).node =
        (adoptLaterPeerChain host turn.now moments server.branches server.node).2 := by
  have told : SameNode _ (server.adoptLater host turn moments) :=
    .foldl gossipBody_same (server.adopted host turn moments) _
  exact ⟨told.branches, told.node⟩

theorem adoptLater_same {server next : P2PServer} (same : SameNode server next) (turn : Turn)
    (moments : Nat → Moment) :
    SameNode (server.adoptLater host turn moments) (next.adoptLater host turn moments) := by
  obtain ⟨branches, node⟩ := @adoptLater_eq host turn moments server
  obtain ⟨branches', node'⟩ := @adoptLater_eq host turn moments next
  rw [same.node, same.branches] at branches' node'
  exact ⟨node'.trans node.symm, branches'.trans branches.symm⟩

theorem adoptLater_follows (turn : Turn) (moments : Nat → Moment) (server : P2PServer) :
    Follows host server (server.adoptLater host turn moments) := by
  obtain ⟨branches, node⟩ := @adoptLater_eq host turn moments server
  refine ⟨?_, ?_⟩
  · rw [node, adoptLaterPeerChain_node]
    split
    · exact ⟨_, _, .nil⟩
    next best _ =>
      exact ⟨_, _, Machine.Runs.nil.snoc (.adoptPeerChain moments best.ancestor best.bodies) trivial
        rfl⟩
  · obtain ⟨keeps, kept⟩ :=
      @adoptLaterPeerChain_held host turn.now moments server.branches server.node
    have dropped : heldMachine.step server.branches.heldBlocks (.drop keeps) =
        some (server.branches.heldBlocks.filter keeps) := rfl
    rw [branches, kept]
    exact ⟨_, _, heldMachine_single trivial dropped⟩

/-- The server with a block among those that it holds. -/
def noting (server : P2PServer) (block : Json) : P2PServer :=
  { server with
    branches := { server.branches with
      heldBlocks := noteOffTipBlock server.branches.heldBlocks block } }

theorem noting_same {server next : P2PServer} (same : SameNode server next) (block : Json) :
    SameNode (server.noting block) (next.noting block) :=
  ⟨same.node, congrArg (fun branches : Branches =>
    { branches with heldBlocks := noteOffTipBlock branches.heldBlocks block }) same.branches⟩

/-- A rejected block off the tip is noted before the choice; any other one changes neither the
node nor what is held. -/
theorem rejectedBlock_same (turn : Turn) (server : P2PServer) (place : Nat) (peer : Session)
    (block : Json) (reason : String) :
    SameNode
      (if offTip reason ∧ (block.valueOr "hash" Json.asText? []).isSome then
        (server.noting block).adoptLater host turn fun number => turn.moments (number + 1)
      else server)
      (server.rejectedBlock host turn place peer block reason) := by
  unfold rejectedBlock
  cases named : block.valueOr "hash" Json.asText? [] with
  | none =>
      rw [if_neg fun both => nomatch both.2]
      exact server.change_same _ _
  | some hash =>
      have shown : ¬(some hash).isNone = true := Bool.false_ne_true
      by_cases off : offTip reason
      · rw [if_pos ⟨off, rfl⟩, if_neg shown, if_pos off]
        have refreshed := refreshHeight_same
          ((server.noting block).adoptLater host turn fun number => turn.moments (number + 1))
        dsimp only
        split
        · exact refreshed.trans (change_same _ _ _)
        · exact refreshed
      · rw [if_neg fun both => off both.1, if_neg shown, if_neg off]
        split
        · exact .refl server
        · exact server.change_same _ _

/-- What a JSON block comes to for the node and for what is held: its submission and, when it is
rejected off the tip, a choice among the held blocks with it. -/
def submittedBlock (host : Host) (turn : Turn) (server : P2PServer) (block : Json) : P2PServer :=
  match rpcSubmitblock host (turn.moments 0) false server.node block with
  | (next, .refused (.reason reason)) =>
      if offTip reason ∧ (block.valueOr "hash" Json.asText? []).isSome then
        ({ server with node := next }.noting block).adoptLater host turn
          fun number => turn.moments (number + 1)
      else { server with node := next }
  | (next, _) => { server with node := next }

theorem handleJsonBlock_same (turn : Turn) (server : P2PServer) (place : Nat) (peer : Session)
    (block : Json) :
    SameNode (server.submittedBlock host turn block)
      (server.handleJsonBlock host turn place peer block) := by
  unfold handleJsonBlock submittedBlock
  generalize connection host (turn.moments 0) false server.node block = connected
  rcases rpcSubmitblock host (turn.moments 0) false server.node block with ⟨next, verdict⟩
  have told := gossipConnection_same { server with node := next } connected
  cases verdict with
  | accepted hash height duplicate => exact told.trans ⟨rfl, rfl⟩
  | refused refusal =>
      cases refusal with
      | thrown => exact told.trans (change_same _ _ _)
      | reason reason =>
          refine SameNode.trans ?_ (rejectedBlock_same turn _ place peer block reason)
          by_cases takes : offTip reason ∧ (block.valueOr "hash" Json.asText? []).isSome
          · simp only [if_pos takes]
            exact adoptLater_same (noting_same told block) turn _
          · simp only [if_neg takes]
            exact told

theorem submittedBlock_node (turn : Turn) (server : P2PServer) (block : Json) :
    ∃ held, (server.submittedBlock host turn block).node =
      PiSecure.handleJsonBlock host turn.moments held server.node block := by
  unfold submittedBlock PiSecure.handleJsonBlock
  rcases rpcSubmitblock host (turn.moments 0) false server.node block with ⟨next, verdict⟩
  cases verdict with
  | accepted hash height duplicate => exact ⟨none, rfl⟩
  | refused refusal =>
      cases refusal with
      | thrown => exact ⟨none, rfl⟩
      | reason reason =>
          dsimp only
          split
          · rw [(adoptLater_eq _ _ _).2, adoptLaterPeerChain_node]
            split
            · exact ⟨none, rfl⟩
            next best _ => exact ⟨some (best.ancestor, best.bodies), rfl⟩
          · exact ⟨none, rfl⟩

/-- What is held after a JSON block: the block that is noted, and the removals of the choice. -/
theorem submittedBlock_held (turn : Turn) (server : P2PServer) (block : Json) :
    ∃ calls log, heldMachine.Runs (fun _ _ => True) server.branches.heldBlocks calls log
      (server.submittedBlock host turn block).branches.heldBlocks := by
  unfold submittedBlock
  split
  next next reason _ =>
    split
    · have noted : heldMachine.Runs (fun _ _ => True) server.branches.heldBlocks [.message block] []
          (noteOffTipBlock server.branches.heldBlocks block) := heldMachine_single trivial rfl
      obtain ⟨_, _, dropped⟩ := (@adoptLater_follows host turn
        (fun number => turn.moments (number + 1)) ({ server with node := next }.noting block)).held
      exact ⟨_, _, noted.trans dropped⟩
    · exact ⟨_, _, .nil⟩
  next => exact ⟨_, _, .nil⟩

/-- A binary block is stored, or changes nothing here. -/
theorem handleBinaryBlock_same (host : Host) (server : P2PServer) (place : Nat)
    (payload : Bytes) :
    SameNode
      (match storableHeader host server.node.storage payload with
        | none => server
        | some header =>
            { server with
              node := { server.node with
                storage := server.node.storage.storeBlockWithHeader header.hash header
                  (.raw payload) } })
      (server.handleBinaryBlock host place payload) := by
  unfold handleBinaryBlock storableHeader
  by_cases short : payload.length < 112
  · rw [if_pos short, if_pos short]
    exact server.change_same _ _
  rw [if_neg short, if_neg short]
  dsimp only
  by_cases worked : Storage.validateBlockPow (binaryHeader host payload).hash
      (binaryHeader host payload).difficulty
  · rw [if_neg (not_not_intro worked), if_neg (not_not_intro worked)]
    cases server.node.storage.getHeaderByHash (binaryHeader host payload).prevBlockHash with
    | none => exact .refl server
    | some prevHeader =>
        dsimp only
        by_cases valid : Storage.validateBlockHeader
            { binaryHeader host payload with height := prevHeader.height + 1 } prevHeader
        · rw [if_neg (not_not_intro valid), if_pos valid]
          exact sendToAll_same _ _ _
        · rw [if_pos valid, if_neg valid]
          exact server.change_same _ _
  · rw [if_pos worked, if_pos worked]
    exact server.change_same _ _

/-- A block message is the call of the node for it, with what is held. -/
theorem handleBlock_follows (turn : Turn) (server : P2PServer) (place : Nat) (peer : Session)
    (payload : Bytes) : Follows host server (server.handleBlock host turn place peer payload) := by
  have node : ∃ held, (server.handleBlock host turn place peer payload).node =
      PiSecure.handleBlock host turn.moments held server.node payload := by
    unfold handleBlock PiSecure.handleBlock
    split
    · split
      · exact ⟨none, rfl⟩
      · cases host.parse payload with
        | none => exact ⟨none, rfl⟩
        | some block =>
            obtain ⟨held, node⟩ := submittedBlock_node turn server block
            exact ⟨held, (handleJsonBlock_same turn server place peer block).node.trans node⟩
    · refine ⟨none, (handleBinaryBlock_same host server place payload).node.trans ?_⟩
      cases storableHeader host server.node.storage payload <;> rfl
  refine ⟨?_, ?_⟩
  · obtain ⟨held, same⟩ := node
    rw [same]
    exact ⟨_, _, Machine.Runs.nil.snoc (.peerBlock turn.moments held payload) trivial rfl⟩
  · unfold handleBlock
    split
    · split
      · exact ⟨_, _, .nil⟩
      · split
        · exact ⟨_, _, .nil⟩
        next block _ =>
          rw [(handleJsonBlock_same turn server place peer block).branches]
          exact submittedBlock_held turn server block
    · have same : (server.handleBinaryBlock host place payload).branches = server.branches :=
        (handleBinaryBlock_same host server place payload).branches.trans (by split <;> rfl)
      rw [same]
      exact ⟨_, _, .nil⟩

/-- A transaction message is the call of the node for it. -/
theorem handleTx_follows (host : Host) (server : P2PServer) (place : Nat) (payload : Bytes) :
    Follows host server (server.handleTx host place payload) := by
  refine .call (.peerTx payload) ?_ ?_
  · show some (PiSecure.handleTx host server.node payload) = _
    unfold handleTx PiSecure.handleTx listedInputs
    dsimp only
    by_cases pooled : server.node.storage.hasTransaction (host.sha256 payload)
    · rw [if_pos pooled, if_pos (.inl pooled)]
    · rw [if_neg pooled]
      simp only [pooled, Bool.false_eq_true, false_or]
      split <;> split <;> rfl
  · unfold handleTx
    dsimp only
    split
    · rfl
    split <;> rfl

theorem handle_follows (turn : Turn) (server : P2PServer) (place : Nat) (message : Message) :
    Follows host server (server.handle host turn place message) := by
  unfold handle
  split
  · exact .refl server
  next peer _ =>
    split
    · exact (server.handleVersion_same _).follows
    · exact server.handleVerack_same.follows
    · exact (server.handleAddr_same _).follows
    · exact (server.handleInv_same _).follows
    · exact (server.handleGetData_same _).follows
    · exact (server.handleGetHeaders_same _).follows
    · exact (server.handleHeaders_same _).follows
    · exact handleBlock_follows turn server place peer _
    · exact handleTx_follows host server place _
    · exact (server.handlePing_same _).follows
    all_goals exact .refl server

/-- A pass of the message loop is calls, whatever is received. -/
theorem processMessages_follows (turns : Nat → Turn) (server : P2PServer) (place : Nat)
    (received : Received) :
    Follows host server (server.processMessages host turns place received) := by
  unfold processMessages
  split
  · exact .refl server
  next peer _ =>
    have looped : Follows host server (PiSecure.processMessages (handlers host turns place)
        ⟨server, peer.recvBuffer, peer.closed, []⟩ received).server := by
      refine processMessages_keeps (fun now message kept => ?_) (fun now kept => ?_) _ received
        (.refl server)
      · have ticked : SameNode (now.handle host (turns now.turn) place message)
            { now.handle host (turns now.turn) place message with turn := now.turn + 1 } :=
              ⟨rfl, rfl⟩
        exact (kept.trans (handle_follows _ now place message)).trans ticked.follows
      · have banned : SameNode now ((handlers host turns place).ban now) := by
          unfold handlers
          dsimp only
          split
          · exact .refl now
          · exact ⟨rfl, rfl⟩
        exact kept.trans banned.follows
    exact looped.trans (change_same _ _ _).follows

theorem addPeer_same (turn : Turn) (server : P2PServer) (addr : PeerAddr) (inbound : Bool)
    (shortWrite : Option Nat) : SameNode server (server.addPeer turn addr inbound shortWrite) :=
  (sendVersion_same turn _ _).after rfl rfl

theorem acceptConnection_same (turn : Turn) (server : P2PServer) (addr : PeerAddr)
    (shortWrite : Option Nat) :
    SameNode server (server.acceptConnection turn addr shortWrite) := by
  unfold acceptConnection
  split
  · exact .refl server
  · exact addPeer_same _ _ _ _ _

theorem connectToPeer_same {turn : Turn} {next : P2PServer} {addr : PeerAddr} {own : Bool}
    {connected : Option (Option Nat)}
    (opened : server.connectToPeer turn addr own connected = some next) : SameNode server next := by
  unfold connectToPeer at opened
  split at opened
  · cases opened
    exact .refl _
  split at opened
  · obtain ⟨_, _, rfl⟩ := Option.map_eq_some_iff.mp opened
    exact ⟨rfl, rfl⟩
  · obtain ⟨_, _, rfl⟩ := Option.map_eq_some_iff.mp opened
    exact (addPeer_same turn server addr false _).trans ⟨rfl, rfl⟩

theorem syncLaterPeers_follows (turn : Turn) (server : P2PServer) :
    Follows host server (server.syncLaterPeers host turn) := by
  unfold syncLaterPeers
  have asked : SameNode server.refreshHeight { server.refreshHeight with
      peers := server.refreshHeight.peers.map fun peer =>
        if !peer.handshakeComplete || peer.closed.isSome ||
            peer.startHeight.toNat ≤ server.refreshHeight.bestHeight then peer
        else peer.send .getheaders (serializeGetHeaders
          server.refreshHeight.node.storage.getBlockLocatorHashes Digest.zero) } := ⟨rfl, rfl⟩
  exact ((server.refreshHeight_same.trans asked).follows.trans (adoptLater_follows turn _ _)).trans
    (refreshHeight_same _).follows

theorem submitBlock_follows (turn : Turn) (server : P2PServer) (localPolicy : Bool)
    (params : Json) :
    Follows host server (server.submitBlock host turn localPolicy params) := by
  have told := gossipConnection_same
    { server with
      node := (rpcSubmitblock host (turn.moments 0) localPolicy server.node params).1 }
    (connection host (turn.moments 0) localPolicy server.node params)
  exact .call (.submitBlock (turn.moments 0) localPolicy params) (congrArg some told.node.symm)
    told.branches

end P2PServer

/-! ## Runs of the threads -/

namespace Threads

variable {state next : Threads} {call : ThreadStep}

/-- A step of a thread moves the node by calls of the node, and what is held by messages and
removals. -/
theorem step_follows (stepped : step host turns state call = some next) :
    Follows host state.server next.server := by
  have ticked : SameNode state.server state.server.tick := ⟨rfl, rfl⟩
  cases call with
  | shouldAccept probeReachable =>
      cases stepped
      exact .refl _
  | accept _ =>
      obtain ⟨_, ⟨_, rfl⟩ | ⟨addr, shortWrite, _, rfl⟩⟩ := accept_cases stepped
      · exact .refl _
      · exact (ticked.trans (P2PServer.acceptConnection_same _ _ addr shortWrite)).follows
  | countOutbound _ =>
      obtain ⟨_, _, rfl⟩ := countOutbound_cases stepped
      exact .refl _
  | connect _ _ _ _ =>
      obtain ⟨_, server, opened, rfl⟩ := connect_cases stepped
      exact (ticked.trans (P2PServer.connectToPeer_same opened)).follows
  | receive place received =>
      cases stepped
      exact P2PServer.processMessages_follows turns state.server place received
  | sweep =>
      cases stepped
      exact SameNode.follows ⟨rfl, rfl⟩
  | ping place timeout =>
      cases stepped
      exact (ticked.trans (P2PServer.change_same _ _ _)).follows
  | syncLater =>
      cases stepped
      exact ticked.follows.trans (P2PServer.syncLaterPeers_follows _ _)
  | exchangeAddresses =>
      cases stepped
      exact SameNode.follows ((P2PServer.dialDirectoryPeers_same _ _).after rfl rfl)
  | discoverPeers peers =>
      cases stepped
      exact SameNode.follows ⟨rfl, rfl⟩
  | submitBlock localPolicy params =>
      cases stepped
      exact ticked.follows.trans (P2PServer.submitBlock_follows _ _ _ _)
  | sendTransaction params =>
      cases stepped
      exact .call (.sendTransaction _ params) rfl rfl
  | getBlockTemplate params =>
      cases stepped
      exact .call (.getBlockTemplate _ params) rfl rfl

/-- Every run of the threads is a run of the node and a run of the held blocks. -/
theorem run_follows {allowed : Threads → ThreadStep → Prop} {calls : List ThreadStep}
    {log : List Unit} (run : (machine host turns).Runs allowed state calls log next) :
    Follows host state.server next.server := by
  induction run with
  | nil => exact .refl _
  | call _ _ stepped ih => exact ih.trans (step_follows stepped)

/-- What every run of the node preserves holds of the node of every server that is reached. -/
theorem node_kept {Kept : Node → Prop}
    (preserved : ∀ {node next : Node} {call : Call}, Kept node →
      stepNode host node call = some next → Kept next)
    {allowed : Threads → ThreadStep → Prop} {calls : List ThreadStep} {log : List Unit}
    (run : (machine host turns).Runs allowed state calls log next) (kept : Kept state.server.node) :
    Kept next.server.node := by
  obtain ⟨_, _, nodeRun⟩ := (run_follows run).node
  generalize next.server.node = last at nodeRun ⊢
  induction nodeRun with
  | nil => exact kept
  | call _ _ stepped ih => exact preserved ih stepped

/-- A server holds noted blocks only, each under the hash in its body. -/
theorem holding_reached {turn : Turn} {node : Node} {seeds : List PeerAddr}
    {allowed : Threads → ThreadStep → Prop} {calls : List ThreadStep} {log : List Unit}
    (run : (machine host turns).Runs allowed (start turn node seeds) calls log next) :
    Holding next.server.branches.heldBlocks := by
  obtain ⟨_, _, heldRun⟩ := (run_follows run).held
  exact Holding.nil.run heldRun

end Threads

end PiSecure
