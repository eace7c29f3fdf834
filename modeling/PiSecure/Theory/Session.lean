import Mathlib.Data.List.Forall2
import Mathlib.Logic.Relation
import PiSecure.Model.Connections

/-! # What the server does to its sessions

Every handler changes the sessions by a few kinds of change: the handshake messages,
answers, announcements to peers that completed the handshake, and charges. What all of
them keep holds of every session.
-/

namespace PiSecure

variable {host : Host} {turn : Turn} {turns : Nat → Turn}

/-- The messages of the handshake. -/
def P2PMsgType.isGreeting : P2PMsgType → Bool
  | .version | .verack => true
  | _ => false

/-- The messages that are sent without being asked for. -/
def P2PMsgType.isAnnouncement : P2PMsgType → Bool
  | .addr | .inv | .ping => true
  | _ => false

namespace Session

/-- One change of a session. All but announcements only befall the session on which the
server is working, its own one. -/
inductive Change (own : Prop) : Session → Session → Prop where
  | greet {peer : Session} (payload : Bytes) : own → peer.versionSent = false →
      peer.closed = none → Change own peer (P2PServer.greet payload peer)
  | read {peer : Session} (turn : Turn) (message : VersionMessage) : own →
      peer.versionReceived = false → Change own peer (P2PServer.readVersion turn message peer)
  | acknowledge {peer : Session} : own → peer.versionReceived = true → peer.verackSent = false →
      Change own peer (P2PServer.acknowledge peer)
  | complete {peer : Session} : own → peer.verackReceived = false →
      peer.handshakeComplete = false → Change own peer (P2PServer.completeHandshake peer)
  | announce {peer : Session} (type : P2PMsgType) (payload : Bytes) : type.isGreeting = false →
      peer.handshakeComplete = true → Change own peer (peer.send type payload)
  | answer {peer : Session} (type : P2PMsgType) (payload : Bytes) : own →
      type.isGreeting = false → type.isAnnouncement = false →
      Change own peer (peer.send type payload)
  | learn {peer : Session} {knownInv : Finset InvVect} : own → peer.knownInv ⊆ knownInv →
      Change own peer { peer with knownInv := knownInv }
  | askFromStart {peer : Session} : own → peer.askedFromStart = false →
      Change own peer (P2PServer.askFromStart peer)
  | charge {peer : Session} (amount : Nat) : own → Change own peer (peer.increaseBanScore amount)
  | disconnect {peer : Session} (reason : String) : own → Change own peer (peer.disconnect reason)
  | ping {peer : Session} (nonce : UInt64) : own → Change own peer { peer with pingNonce := nonce }
  | buffer {peer : Session} (bytes : Bytes) :
    own → Change own peer { peer with recvBuffer := bytes }

/-- Some changes of a session, one after the other. -/
def Changes (own : Prop) : Session → Session → Prop := Relation.ReflTransGen (Change own)

variable {own : Prop} {peer next : Session}

theorem Change.changes (change : Change own peer next) : Changes own peer next := .single change

/-- What every change keeps, changes keep. -/
theorem Changes.keep {Kept : Session → Prop}
    (keeps : ∀ {peer next : Session}, Change own peer next → Kept peer → Kept next)
    (changes : Changes own peer next) (kept : Kept peer) : Kept next := by
  induction changes with
  | refl => exact kept
  | tail _ change ih => exact keeps change ih

/-! ## What is written -/

/-- A send writes the message, or the session is closed already, or it falls short and
closes the session. -/
theorem send_cases (peer : Session) (type : P2PMsgType) (payload : Bytes) :
    peer.closed = none ∧
        peer.send type payload = { peer with output := peer.output ++ [⟨type, payload⟩] } ∨
      peer.closed.isSome ∧ peer.send type payload = peer ∨
      peer.closed = none ∧ peer.shortWrite = some peer.output.length ∧
        peer.send type payload = { peer with closed := some "Short write" } := by
  unfold send
  split
  next closed => exact .inr (.inl ⟨closed, rfl⟩)
  next opened =>
    have unclosed := Option.not_isSome_iff_eq_none.mp opened
    split
    next short => exact .inr (.inr ⟨unclosed, short, rfl⟩)
    · exact .inl ⟨unclosed, rfl⟩

theorem output_send (peer : Session) (type : P2PMsgType) (payload : Bytes) :
    peer.output <+: (peer.send type payload).output := by
  rcases send_cases peer type payload with ⟨_, same⟩ | ⟨_, same⟩ | ⟨_, _, same⟩
  · rw [same]
    exact List.prefix_append _ _
  · rw [same]
  · rw [same]

/-- A send on an open session whose writes do not fall short. -/
theorem send_open (opened : peer.closed = none) (steady : peer.shortWrite = none)
    (type : P2PMsgType) (payload : Bytes) :
    peer.send type payload = { peer with output := peer.output ++ [⟨type, payload⟩] } := by
  unfold send
  rw [opened, steady]
  rfl

theorem disconnect_cases (peer : Session) (reason : String) :
    peer.disconnect reason = peer ∧ peer.closed.isSome ∨
      peer.disconnect reason = { peer with closed := some reason } := by
  unfold disconnect
  split
  next closed => exact .inl ⟨rfl, closed⟩
  · exact .inr rfl

theorem disconnect_open (opened : peer.closed = none) (reason : String) :
    peer.disconnect reason = { peer with closed := some reason } := by
  unfold disconnect
  rw [opened]
  rfl

theorem output_disconnect (peer : Session) (reason : String) :
    (peer.disconnect reason).output = peer.output := by
  rcases disconnect_cases peer reason with ⟨same, _⟩ | changed
  · rw [same]
  · rw [changed]

/-- What is written stays written. -/
theorem Change.output (change : Change own peer next) : peer.output <+: next.output := by
  cases change with
  | greet payload _ _ _ => exact output_send { peer with versionSent := true } _ _
  | acknowledge _ _ _ => exact output_send { peer with verackSent := true } _ _
  | announce type payload _ _ => exact output_send _ _ _
  | answer type payload _ _ _ => exact output_send _ _ _
  | askFromStart _ _ => exact output_send { peer with askedFromStart := true } _ _
  | disconnect reason _ =>
      rw [output_disconnect]
  | read | complete | learn | charge | ping | buffer => exact List.prefix_refl _

theorem Changes.output (changes : Changes own peer next) : peer.output <+: next.output := by
  induction changes with
  | refl => exact List.prefix_refl _
  | tail _ change ih => exact ih.trans change.output

end Session

/-! ## The sessions of a server -/

/-- The sessions of a server with some changes, while the server works on the one at a
place. -/
structure Touched (place : Nat) (server next : P2PServer) : Prop where
  length : next.peers.length = server.peers.length
  changes : ∀ (other : Nat) (peer after : Session), server.peers[other]? = some peer →
    next.peers[other]? = some after → Session.Changes (other = place) peer after

namespace Touched

variable {server next final : P2PServer} {place other : Nat} {peer : Session}

theorem of_peers (same : next.peers = server.peers) : Touched place server next where
  length := by rw [same]
  changes _ _ _ before after := by
    rw [same, before] at after
    cases after
    exact .refl

theorem refl (server : P2PServer) : Touched place server server := .of_peers rfl

/-- A session after the changes is one from before, changed. -/
theorem exists_before (touched : Touched place server next) {after : Session}
    (there : next.peers[other]? = some after) :
    ∃ peer, server.peers[other]? = some peer ∧ Session.Changes (other = place) peer after := by
  obtain ⟨inside, _⟩ := List.getElem?_eq_some_iff.mp there
  rw [touched.length] at inside
  have before := List.getElem?_eq_getElem inside
  exact ⟨_, before, touched.changes other _ _ before there⟩

theorem exists_after (touched : Touched place server next)
    (there : server.peers[other]? = some peer) :
    ∃ after, next.peers[other]? = some after ∧ Session.Changes (other = place) peer after := by
  obtain ⟨inside, _⟩ := List.getElem?_eq_some_iff.mp there
  rw [← touched.length] at inside
  have after := List.getElem?_eq_getElem inside
  exact ⟨_, after, touched.changes other _ _ there after⟩

theorem trans (one : Touched place server next) (more : Touched place next final) :
    Touched place server final where
  length := more.length.trans one.length
  changes other peer after before there := by
    obtain ⟨middle, between, changed⟩ := one.exists_after before
    exact changed.trans (more.changes other middle after between there)

/-- Changes of a server with the same sessions. -/
theorem after {middle : P2PServer} (touched : Touched place middle next)
    (same : middle.peers = server.peers) : Touched place server next :=
  (of_peers same).trans touched

theorem update {change : Session → Session}
    (changes : ∀ peer, server.peers[place]? = some peer →
      Session.Changes (place = place) peer (change peer)) :
    Touched place server (server.update place change) where
  length := List.length_modify ..
  changes other peer after before there := by
    rw [P2PServer.update, List.getElem?_modify, before] at there
    cases there
    split
    next same =>
      subst same
      exact changes peer before
    · exact .refl

theorem map {change : Session → Session}
    (changes : ∀ own, ∀ peer ∈ server.peers, Session.Changes own peer (change peer)) :
    Touched place server { server with peers := server.peers.map change } where
  length := List.length_map ..
  changes other peer after before there := by
    rw [List.getElem?_map, before] at there
    cases there
    exact changes _ peer (List.mem_of_getElem? before)

end Touched

namespace P2PServer

variable {server : P2PServer} {place : Nat} {peer : Session}

theorem peers_update (there : server.peers[place]? = some peer) (change : Session → Session) :
    (server.update place change).peers[place]? = some (change peer) := by
  rw [update, List.getElem?_modify_eq, there]
  rfl

theorem update_update (server : P2PServer) (place : Nat) (first second : Session → Session) :
    (server.update place first).update place second = server.update place (second ∘ first) := by
  rw [update, update, update, List.modify_modify_eq]

theorem charge_touched (server : P2PServer) (place amount : Nat) :
    Touched place server (server.charge place amount) :=
  .update fun _ _ => (Session.Change.charge amount rfl).changes

theorem disconnect_touched (server : P2PServer) (place : Nat) (reason : String) :
    Touched place server (server.update place fun peer => peer.disconnect reason) :=
  .update fun _ _ => (Session.Change.disconnect reason rfl).changes

theorem answer_touched (server : P2PServer) (place : Nat) {type : P2PMsgType} (payload : Bytes)
    (other : type.isGreeting = false) (asked : type.isAnnouncement = false) :
    Touched place server (server.send place type payload) :=
  .update fun _ _ => (Session.Change.answer type payload rfl other asked).changes

theorem askHeaders_touched (server : P2PServer) (place : Nat) (locatorHashes : List Digest) :
    Touched place server (server.askHeaders place locatorHashes) :=
  server.answer_touched place _ rfl rfl

theorem sendToAll_touched (server : P2PServer) {type : P2PMsgType} (payload : Bytes)
    (other : type.isGreeting = false) : Touched place server (server.sendToAll type payload) := by
  refine .map fun _ peer _ => ?_
  split
  next complete => exact (Session.Change.announce type payload other complete).changes
  · exact .refl

@[simp] theorem refreshHeight_peers (server : P2PServer) :
    server.refreshHeight.peers = server.peers := by
  unfold refreshHeight
  split <;> rfl

theorem refreshHeight_touched (server : P2PServer) : Touched place server server.refreshHeight := by
  refine .of_peers ?_
  unfold refreshHeight
  split <;> rfl

theorem dialDirectoryPeers_touched (turn : Turn) (server : P2PServer) :
    Touched place server (server.dialDirectoryPeers turn) := by
  unfold dialDirectoryPeers
  split
  · exact server.refreshHeight_touched
  · exact .refl server

theorem broadcastInv_touched (server : P2PServer) (type : InvType) (hash : Digest) :
    Touched place server (server.broadcastInv type hash) :=
  server.sendToAll_touched _ rfl

theorem gossipBlock_touched (server : P2PServer) (raw : Bytes) (hash : Digest) :
    Touched place server (server.gossipBlock raw hash) := by
  have announced : Touched place server (server.refreshHeight.broadcastInv .block hash) :=
    server.refreshHeight_touched.trans (server.refreshHeight.broadcastInv_touched .block hash)
  unfold gossipBlock
  dsimp only
  split
  · exact announced
  · exact announced.trans (sendToAll_touched _ raw rfl)

/-- A fold of changes is a change. -/
theorem foldl_touched {Item : Type} {change : P2PServer → Item → P2PServer}
    (touches : ∀ server item, Touched place server (change server item)) (items : List Item)
    (server : P2PServer) : Touched place server (items.foldl change server) := by
  induction items generalizing server with
  | nil => exact .refl server
  | cons item rest ih => exact (touches server item).trans (ih _)

theorem gossipConnection_touched (server : P2PServer) (connected : List (Accepted host)) :
    Touched place server (server.gossipConnection connected) :=
  foldl_touched (fun server _ => server.gossipBlock_touched _ _) connected server

theorem gossipBody_touched (server : P2PServer) (body : Json) :
    Touched place server (server.gossipBody body) := by
  unfold gossipBody
  split
  · exact .refl server
  · exact server.gossipBlock_touched _ _

theorem adoptLater_touched (turn : Turn) (moments : Nat → Moment) (server : P2PServer) :
    Touched place server (server.adoptLater host turn moments) := by
  have moved : Touched place server { server with
      branches := (adoptLaterPeerChain host turn.now moments server.branches server.node).1
      node := (adoptLaterPeerChain host turn.now moments server.branches server.node).2 } :=
    .of_peers rfl
  exact moved.trans (foldl_touched gossipBody_touched _ _)

/-! ## The handlers -/

theorem sendVersion_eq (turn : Turn) (there : server.peers[place]? = some peer)
    (unsent : peer.versionSent = false) (opened : peer.closed = none) :
    server.sendVersion turn place = server.refreshHeight.update place
      (greet (server.refreshHeight.versionPayload turn peer)) := by
  unfold sendVersion
  rw [there]
  dsimp only
  rw [unsent, opened]
  rfl

theorem sendVersion_sent (turn : Turn) (there : server.peers[place]? = some peer)
    (sent : peer.versionSent = true) : server.sendVersion turn place = server := by
  unfold sendVersion
  rw [there]
  dsimp only
  rw [sent]
  rfl

theorem sendVersion_touched (turn : Turn) (server : P2PServer) (place : Nat) :
    Touched place server (server.sendVersion turn place) := by
  cases there : server.peers[place]? with
  | none =>
      unfold sendVersion
      rw [there]
      exact .refl server
  | some peer =>
      cases sent : peer.versionSent with
      | true =>
          rw [sendVersion_sent turn there sent]
          exact .refl server
      | false =>
          cases opened : peer.closed with
          | some reason =>
              unfold sendVersion
              rw [there]
              dsimp only
              rw [sent, opened]
              exact .refl server
          | none =>
              rw [sendVersion_eq turn there sent opened]
              refine server.refreshHeight_touched.trans (.update fun other found => ?_)
              rw [refreshHeight_peers, there] at found
              cases found
              exact (Session.Change.greet _ rfl sent opened).changes

theorem sendVerack_touched (there : server.peers[place]? = some peer)
    (received : peer.versionReceived = true) : Touched place server (server.sendVerack place) := by
  unfold sendVerack
  rw [there]
  dsimp only
  split
  · exact .refl server
  next allowed =>
    obtain ⟨unsent, _⟩ := Bool.or_eq_false_iff.mp (Bool.eq_false_iff.mpr allowed)
    refine Touched.update fun other found => ?_
    rw [there] at found
    cases found
    exact (Session.Change.acknowledge rfl received unsent).changes

theorem handleVersion_touched (there : server.peers[place]? = some peer) (payload : Bytes) :
    Touched place server (server.handleVersion turn place peer payload) := by
  unfold handleVersion
  split
  · exact .refl server
  next unread =>
    split
    · exact .refl server
    · exact server.charge_touched place 10
    next message decoded =>
      dsimp only
      have read : Touched place server (server.update place (readVersion turn message)) := by
        refine .update fun other found => ?_
        rw [there] at found
        cases found
        exact (Session.Change.read turn message rfl (Bool.eq_false_iff.mpr unread)).changes
      split
      · exact read.trans (disconnect_touched _ place _)
      · have acknowledged := read.trans (sendVerack_touched (peers_update there _) rfl)
        split
        · exact acknowledged.trans (sendVersion_touched turn _ place)
        · exact acknowledged

theorem sendAddr_changes {own : Prop} (addrs : List PeerAddr)
    (complete : peer.handshakeComplete = true) :
    Session.Changes own peer (sendAddr addrs peer) := by
  unfold sendAddr
  split
  · exact .refl
  · exact (Session.Change.announce .addr _ rfl complete).changes

theorem exchangeAddresses_touched (turn : Turn) (server : P2PServer) :
    Touched place server (server.exchangeAddresses turn) := by
  refine .map fun _ peer _ => ?_
  split
  next chosen => exact sendAddr_changes _ (Bool.and_eq_true_iff.mp chosen).1
  · exact .refl

theorem handleVerack_touched (there : server.peers[place]? = some peer) :
    Touched place server (server.handleVerack turn place peer) := by
  unfold handleVerack
  split
  · exact .refl server
  next unread =>
    obtain ⟨unreceived, incomplete⟩ := Bool.or_eq_false_iff.mp (Bool.eq_false_iff.mpr unread)
    have completed : ∀ addrs, Touched place server
        ((server.update place completeHandshake).update place (sendAddr addrs)) := by
      intro addrs
      rw [update_update]
      refine Touched.update fun other found => ?_
      rw [there] at found
      cases found
      exact (Session.Change.complete rfl unreceived incomplete).changes.trans
        (sendAddr_changes _ rfl)
    have exchanged : ∀ addrs, Touched place server (dialDirectoryPeers turn (exchangeAddresses turn
        ((server.update place completeHandshake).update place (sendAddr addrs)))) := by
      intro addrs
      exact ((completed addrs).trans (exchangeAddresses_touched turn _)).trans
        (dialDirectoryPeers_touched turn _)
    dsimp only
    split
    · exact (exchanged _).trans (askHeaders_touched _ place _)
    · exact exchanged _

theorem handleAddr_touched (turn : Turn) (server : P2PServer) (payload : Bytes) :
    Touched place server (server.handleAddr turn payload) := by
  unfold handleAddr
  split
  · exact (dialDirectoryPeers_touched turn _).after rfl
  · exact .refl server

theorem subset_newInventory (storage : Storage) (invs : List InvVect) (knownInv : Finset InvVect) :
    knownInv ⊆ (newInventory storage invs knownInv).2 := by
  induction invs generalizing knownInv with
  | nil => exact Finset.Subset.refl _
  | cons inv rest ih =>
      rw [newInventory]
      split
      · exact ih knownInv
      · exact (Finset.subset_insert inv knownInv).trans (ih _)

theorem handleInv_touched (there : server.peers[place]? = some peer) (payload : Bytes) :
    Touched place server (server.handleInv place peer payload) := by
  unfold handleInv
  split
  · exact .refl server
  · exact server.charge_touched place 10
  next invs decoded =>
    have learned : Touched place server (server.update place fun other =>
        { other with knownInv := (newInventory server.node.storage invs peer.knownInv).2 }) := by
      refine .update fun other found => ?_
      rw [there] at found
      cases found
      exact (Session.Change.learn rfl (subset_newInventory _ _ _)).changes
    dsimp only
    split
    · exact learned
    · exact learned.trans (answer_touched _ place _ rfl rfl)

theorem handleGetData_touched (server : P2PServer) (place : Nat) (payload : Bytes) :
    Touched place server (server.handleGetData place payload) := by
  unfold handleGetData
  split
  · exact .refl server
  · exact server.charge_touched place 10
  next invs decoded =>
    have answers : ∀ message ∈ invs.filterMap (served server.node.storage),
        message.type = .block ∨ message.type = .tx := by
      intro message member
      obtain ⟨inv, _, found⟩ := List.mem_filterMap.mp member
      unfold served at found
      split at found
      · obtain ⟨_, _, rfl⟩ := Option.map_eq_some_iff.mp found
        exact .inl rfl
      split at found
      · obtain ⟨_, _, rfl⟩ := Option.map_eq_some_iff.mp found
        exact .inr rfl
      · cases found
    generalize invs.filterMap (served server.node.storage) = messages at answers
    induction messages generalizing server with
    | nil => exact .refl server
    | cons message rest ih =>
        rw [List.forall_mem_cons] at answers
        refine (answer_touched server place _ ?_ ?_).trans (ih _ answers.2)
        · rcases answers.1 with block | tx
          · rw [block]; rfl
          · rw [tx]; rfl
        · rcases answers.1 with block | tx
          · rw [block]; rfl
          · rw [tx]; rfl

theorem handleGetHeaders_touched (turn : Turn) (server : P2PServer) (place : Nat)
    (payload : Bytes) : Touched place server (server.handleGetHeaders turn place payload) := by
  unfold handleGetHeaders
  split
  · exact .refl server
  · exact server.charge_touched place 10
  · dsimp only
    split
    · exact .refl server
    · exact server.answer_touched place _ rfl rfl

theorem handleHeaders_touched (there : server.peers[place]? = some peer) (payload : Bytes) :
    Touched place server (server.handleHeaders place peer payload) := by
  unfold handleHeaders
  split
  · exact .refl server
  · exact server.disconnect_touched place _
  split
  · exact server.disconnect_touched place _
  split
  · split
    · exact .refl server
    next unasked =>
      refine Touched.update fun other found => ?_
      rw [there] at found
      cases found
      exact (Session.Change.askFromStart rfl (Bool.eq_false_iff.mpr unasked)).changes
  · exact server.disconnect_touched place _
  next blocks _ =>
    have requested : Touched place server
        (if blocks.isEmpty then server
          else server.send place .getdata (serializeGetData blocks)) := by
      split
      · exact .refl server
      · exact server.answer_touched place _ rfl rfl
    dsimp only
    split
    · exact requested.trans (askHeaders_touched _ place _)
    · exact requested

theorem rejectedBlock_touched (server : P2PServer) (place : Nat) (peer : Session) (block : Json)
    (reason : String) :
    Touched place server (server.rejectedBlock host turn place peer block reason) := by
  let noted : P2PServer := { server with
    branches := { server.branches with
      heldBlocks := noteOffTipBlock server.branches.heldBlocks block } }
  have same : noted.peers = server.peers := rfl
  let next := noted.adoptLater host turn fun number => turn.moments (number + 1)
  have adopted : Touched place server next.refreshHeight :=
    ((noted.adoptLater_touched turn _).after same).trans next.refreshHeight_touched
  rw [rejectedBlock]
  by_cases untyped : (block.valueOr "hash" Json.asText? []).isNone = true
  · rw [if_pos untyped]
    exact server.charge_touched place 10
  rw [if_neg untyped]
  by_cases off : offTip reason = true
  · rw [if_pos off]
    change Touched place server
      (if peer.startHeight.toNat > next.refreshHeight.bestHeight then
        next.refreshHeight.askHeaders place
          next.refreshHeight.node.storage.getBlockLocatorHashes
      else next.refreshHeight)
    split
    · exact adopted.trans (askHeaders_touched _ place _)
    · exact adopted
  rw [if_neg off]
  by_cases proof : proofReason reason = true
  · rw [if_pos proof]
    exact .refl server
  · rw [if_neg proof]
    exact server.charge_touched place 20

theorem handleJsonBlock_touched (server : P2PServer) (place : Nat) (peer : Session)
    (block : Json) : Touched place server (server.handleJsonBlock host turn place peer block) := by
  unfold handleJsonBlock
  split
  next next verdict _ =>
    have submitted : Touched place server ({ server with node := next }.gossipConnection
        (connection host (turn.moments 0) false server.node block)) :=
      (gossipConnection_touched _ _).after rfl
    dsimp only
    split
    · exact submitted.trans (.of_peers rfl)
    · exact submitted.trans (rejectedBlock_touched _ place peer block _)
    · exact submitted.trans (charge_touched _ place 10)

theorem handleBinaryBlock_touched (host : Host) (server : P2PServer) (place : Nat)
    (payload : Bytes) : Touched place server (server.handleBinaryBlock host place payload) := by
  unfold handleBinaryBlock
  split
  · exact server.charge_touched place 10
  dsimp only
  split
  · exact server.charge_touched place 50
  split
  · exact .refl server
  split
  · exact server.charge_touched place 30
  · exact (broadcastInv_touched _ _ _).after rfl

theorem handleBlock_touched (server : P2PServer) (place : Nat) (peer : Session)
    (payload : Bytes) : Touched place server (server.handleBlock host turn place peer payload) := by
  unfold handleBlock
  split
  · split
    · exact server.charge_touched place 20
    split
    · exact server.charge_touched place 10
    · exact server.handleJsonBlock_touched place peer _
  · exact server.handleBinaryBlock_touched host place payload

theorem handleTx_touched (host : Host) (server : P2PServer) (place : Nat) (payload : Bytes) :
    Touched place server (server.handleTx host place payload) := by
  unfold handleTx
  dsimp only
  split
  · exact .refl server
  split
  · exact server.charge_touched place 10
  · exact (broadcastInv_touched _ _ _).after rfl

theorem handlePing_touched (server : P2PServer) (place : Nat) (payload : Bytes) :
    Touched place server (server.handlePing place payload) := by
  unfold handlePing
  split
  · exact server.answer_touched place _ rfl rfl
  · exact .refl server

/-- What any message does to the sessions. -/
theorem handle_touched (server : P2PServer) (place : Nat) (message : Message) :
    Touched place server (server.handle host turn place message) := by
  unfold handle
  split
  · exact .refl server
  next peer there =>
    split
    · exact handleVersion_touched there _
    · exact handleVerack_touched there
    · exact handleAddr_touched turn server _
    · exact handleInv_touched there _
    · exact handleGetData_touched server place _
    · exact handleGetHeaders_touched turn server place _
    · exact handleHeaders_touched there _
    · exact handleBlock_touched server place peer _
    · exact handleTx_touched host server place _
    · exact handlePing_touched server place _
    all_goals exact .refl server

end P2PServer

end PiSecure
