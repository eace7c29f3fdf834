import PiSecure.Theory.Frames
import PiSecure.Theory.Mining
import PiSecure.Theory.Session

/-! # The handshake

A session starts with one version message. The verack answers the version of the peer,
and nothing is announced to a peer before its verack. A message of one peer does no more
to the sessions of others than to announce something.
-/

namespace PiSecure

variable {host : Host} {turns : Nat → Turn}

/-! ## The message loop -/

namespace P2PServer

variable {server : P2PServer} {place : Nat}

/-- The state of the loop over the frames of a connection. Where the loop has closed the
connection by itself, its session does not know it yet. -/
structure Midway (place : Nat) (server : P2PServer) (peer : Peer P2PServer) : Prop where
  touched : Touched place server peer.server
  closed : peer.closed = peer.server.closedAt place ∨ peer.server.closedAt place = none

theorem Midway.opened {peer : Peer P2PServer} (midway : Midway place server peer)
    (opened : peer.closed = none) : peer.server.closedAt place = none := by
  rcases midway.closed with same | isOpen
  · rw [← same, opened]
  · exact isOpen

theorem ban_peers (server : P2PServer) :
    ((handlers host turns place).ban server).peers = server.peers := by
  unfold handlers
  dsimp only
  split <;> rfl

theorem Midway.dispatch {peer : Peer P2PServer} (midway : Midway place server peer)
    (opened : peer.closed = none) (message : Message) :
    Midway place server (PiSecure.dispatch (handlers host turns place) peer message) := by
  unfold PiSecure.dispatch
  split
  · exact ⟨midway.touched, .inr (midway.opened opened)⟩
  · refine ⟨midway.touched.trans ?_, .inl rfl⟩
    exact (handle_touched peer.server place message).trans (.of_peers rfl)

theorem Midway.afterDispatch {peer : Peer P2PServer} (midway : Midway place server peer) :
    Midway place server (PiSecure.afterDispatch (handlers host turns place) peer) := by
  unfold PiSecure.afterDispatch
  split
  · exact ⟨midway.touched, midway.closed⟩
  next still =>
    split
    · have same : ((handlers host turns place).ban peer.server).peers = peer.server.peers :=
        ban_peers peer.server
      refine ⟨midway.touched.trans (.of_peers same), .inr ?_⟩
      have isOpen := midway.opened (Option.not_isSome_iff_eq_none.mp still)
      rw [closedAt] at isOpen ⊢
      rw [Peer.disconnect, same]
      exact isOpen
    · exact midway

theorem Midway.frame {peer next : Peer P2PServer} (midway : Midway place server peer)
    (step : processFrame (handlers host turns place) peer = some next) :
    Midway place server next := by
  obtain ⟨opened, ⟨_, _, reason, _, _, rfl⟩ | ⟨message, rest, _, _, rfl⟩⟩ :=
    processFrame_cases step
  · exact ⟨midway.touched, .inr (midway.opened opened)⟩
  · have buffered : Midway place server { peer with recvBuffer := rest } :=
      ⟨midway.touched, midway.closed⟩
    exact (buffered.dispatch opened message).afterDispatch

theorem Midway.frames {peer : Peer P2PServer} (midway : Midway place server peer) (fuel : Nat) :
    Midway place server (processFrames (handlers host turns place) fuel peer) := by
  induction fuel generalizing peer with
  | zero => exact midway
  | succ fuel ih =>
      rw [processFrames]
      split
      · exact midway
      next next step => exact ih (midway.frame step)

/-- The session of a connection that the loop has closed is closed, too. -/
theorem Midway.closing {peer : Peer P2PServer} (midway : Midway place server peer)
    {session : Session} (found : peer.server.peers[place]? = some session) :
    Session.Changes (place = place) session { session with closed := peer.closed } := by
  rcases midway.closed with same | opened
  · rw [closedAt, found] at same
    rw [same]
    exact .refl
  · rw [closedAt, found] at opened
    have still : session.closed = none := opened
    cases why : peer.closed with
    | none =>
        rw [← still]
        exact .refl
    | some reason =>
        have closing : Session.Change (place = place) session (session.disconnect reason) :=
          .disconnect reason rfl
        rw [Session.disconnect_open still] at closing
        exact closing.changes

/-- What a pass of the message loop does to the sessions. -/
theorem processMessages_touched (host : Host) (turns : Nat → Turn) (server : P2PServer)
    (place : Nat) (received : Received) :
    Touched place server (server.processMessages host turns place received) := by
  unfold processMessages
  split
  · exact .refl server
  next peer there =>
    have start : Midway place server
        (⟨server, peer.recvBuffer, peer.closed, []⟩ : Peer P2PServer) := by
      refine ⟨.refl server, .inl ?_⟩
      rw [closedAt, there]
      rfl
    have final : Midway place server (PiSecure.processMessages (handlers host turns place)
        ⟨server, peer.recvBuffer, peer.closed, []⟩ received) := by
      unfold PiSecure.processMessages
      split
      · exact start
      next opened =>
        split
        · exact start
        · exact ⟨start.touched, .inr (start.opened (Option.not_isSome_iff_eq_none.mp opened))⟩
        next chunk =>
          refine Midway.frames ?_ _
          rw [append_opened (Option.not_isSome_iff_eq_none.mp opened)]
          exact ⟨start.touched, start.closed⟩
    refine final.touched.trans (.update fun session found => ?_)
    exact (final.closing found).tail (.buffer _ rfl)

/-- What one message does to the sessions. -/
theorem deliver_touched (host : Host) (turns : Nat → Turn) (server : P2PServer) (place : Nat)
    (message : Message) : Touched place server (server.deliver host turns place message) := by
  unfold deliver
  split
  · exact .refl server
  next opened =>
    have start : Midway place server (⟨server, [], none, []⟩ : Peer P2PServer) :=
      ⟨.refl server, .inl (Option.not_isSome_iff_eq_none.mp opened).symm⟩
    have final : Midway place server (PiSecure.afterDispatch (handlers host turns place)
        (PiSecure.dispatch (handlers host turns place) ⟨server, [], none, []⟩ message)) :=
      (start.dispatch rfl message).afterDispatch
    exact final.touched.trans (.update fun session found => final.closing found)

/-! ## New sessions -/

/-- The last item of a list changed. -/
private theorem modify_concat {Item : Type} (items : List Item) (item : Item)
    (change : Item → Item) :
    (items ++ [item]).modify items.length change = items ++ [change item] := by
  induction items with
  | nil => rfl
  | cons first rest ih => exact congrArg (first :: ·) ih

/-- A new session starts with its version message. -/
theorem addPeer_eq (turn : Turn) (server : P2PServer) (addr : PeerAddr) (inbound : Bool)
    (shortWrite : Option Nat) :
    server.addPeer turn addr inbound shortWrite =
      { server.refreshHeight with
        peers := server.peers ++ [greet
          (server.refreshHeight.versionPayload turn (newPeer addr inbound shortWrite))
          (newPeer addr inbound shortWrite)] } := by
  have last : (server.peers ++ [newPeer addr inbound shortWrite])[server.peers.length]? =
      some (newPeer addr inbound shortWrite) := List.getElem?_concat_length
  unfold addPeer
  rw [sendVersion_eq turn last rfl rfl, update, refreshHeight_peers]
  dsimp only
  rw [modify_concat]
  unfold refreshHeight
  dsimp only
  split <;> rfl

end P2PServer

/-! ## The steps of the threads -/

namespace Threads

variable {state next : Threads} {call : ThreadStep}

/-- What a step does to the sessions: the changes of a server that works on one of them, a
new session at the end, or the removal of some. -/
inductive SessionsStep (server next : P2PServer) : Prop where
  | touched (place : Nat) : Touched place server next → SessionsStep server next
  | added (payload : Bytes) (addr : PeerAddr) (inbound : Bool) (shortWrite : Option Nat) :
      next.peers = server.peers ++
        [P2PServer.greet payload (P2PServer.newPeer addr inbound shortWrite)] →
      SessionsStep server next
  | swept (keep : Session → Bool) : next.peers = server.peers.filter keep →
      SessionsStep server next

theorem pingPeer_touched (turn : Turn) (server : P2PServer) (place : Nat) (timeout : Bool) :
    Touched place server (server.pingPeer turn place timeout) := by
  refine .update fun peer _ => ?_
  dsimp only
  split
  next complete =>
    have pinged : Session.Changes (place = place) peer (P2PServer.sendPing turn.nonce peer) :=
      (Session.Change.ping turn.nonce rfl).changes.tail
        (.announce .ping (serializePing turn.nonce) rfl complete)
    split
    · exact pinged.tail (.disconnect "Timeout" rfl)
    · exact pinged
  · exact .refl

theorem syncLaterPeers_touched (turn : Turn) (server : P2PServer) (place : Nat) :
    Touched place server (server.syncLaterPeers host turn) := by
  have asked : ∀ (height : Nat) (payload : Bytes), Touched place server.refreshHeight
      { server.refreshHeight with
        peers := server.refreshHeight.peers.map fun peer =>
          if !peer.handshakeComplete || peer.closed.isSome || peer.startHeight.toNat ≤ height then
            peer
          else peer.send .getheaders payload } := by
    intro height payload
    refine .map fun own peer _ => ?_
    split
    · exact .refl
    next chosen =>
      have complete : peer.handshakeComplete = true := by
        cases complete : peer.handshakeComplete with
        | true => rfl
        | false =>
            rw [complete] at chosen
            exact absurd rfl chosen
      exact (Session.Change.announce .getheaders payload rfl complete).changes
  exact ((server.refreshHeight_touched.trans (asked _ _)).trans
    (P2PServer.adoptLater_touched turn turn.moments _)).trans (P2PServer.refreshHeight_touched _)

theorem exchangeAddresses_dialed (turn : Turn) (server : P2PServer) (place : Nat) :
    Touched place server ((server.exchangeAddresses turn).dialDirectoryPeers turn) :=
  (P2PServer.exchangeAddresses_touched turn server).trans
    (P2PServer.dialDirectoryPeers_touched turn _)

theorem submitBlock_touched (turn : Turn) (server : P2PServer) (place : Nat) (localPolicy : Bool)
    (params : Json) : Touched place server (server.submitBlock host turn localPolicy params) :=
  (P2PServer.gossipConnection_touched _ _).after rfl

theorem acceptConnection_step (turn : Turn) (server : P2PServer) (addr : PeerAddr)
    (shortWrite : Option Nat) :
    SessionsStep server (server.acceptConnection turn addr shortWrite) := by
  unfold P2PServer.acceptConnection
  split
  · exact .touched 0 (.refl server)
  · rw [P2PServer.addPeer_eq]
    exact .added _ addr true shortWrite rfl

theorem connectToPeer_step {turn : Turn} {server next : P2PServer} {addr : PeerAddr} {own : Bool}
    {connected : Option (Option Nat)}
    (dialed : server.connectToPeer turn addr own connected = some next) :
    SessionsStep server next := by
  unfold P2PServer.connectToPeer at dialed
  split at dialed
  · cases dialed
    exact .touched 0 (.refl server)
  split at dialed
  · obtain ⟨marked, _, rfl⟩ := Option.map_eq_some_iff.mp dialed
    exact .touched 0 (.of_peers rfl)
  next shortWrite =>
    obtain ⟨marked, _, rfl⟩ := Option.map_eq_some_iff.mp dialed
    rw [P2PServer.addPeer_eq]
    exact .added _ addr false shortWrite rfl

theorem SessionsStep.after {server middle next : P2PServer} (step : SessionsStep middle next)
    (same : middle.peers = server.peers) : SessionsStep server next := by
  cases step with
  | touched place touched => exact .touched place (touched.after same)
  | added payload addr inbound shortWrite added =>
      exact .added payload addr inbound shortWrite (same ▸ added)
  | swept keep kept => exact .swept keep (same ▸ kept)

/-- What the accept loop does when it takes a socket that waits. -/
theorem accept_cases {waiting : Option (PeerAddr × Option Nat)}
    (stepped : step host turns state (.accept waiting) = some next) :
    state.accepting = true ∧ (waiting = none ∧ next = { state with accepting := false } ∨
      ∃ addr shortWrite, waiting = some (addr, shortWrite) ∧
        next = { state with
          accepting := false
          server := state.server.tick.acceptConnection (turns state.server.turn) addr
            shortWrite }) := by
  unfold step at stepped
  dsimp only at stepped
  split at stepped
  next found =>
    cases stepped
    refine ⟨found, ?_⟩
    cases waiting with
    | none => exact .inl ⟨rfl, rfl⟩
    | some socket => exact .inr ⟨socket.1, socket.2, rfl, rfl⟩
  · cases stepped

/-- A thread counts the outbound sessions once before it dials. -/
theorem countOutbound_cases {dialer : Dialer}
    (stepped : step host turns state (.countOutbound dialer) = some next) :
    dialer ∉ state.dialing ∧ state.server.outboundCount < MAX_OUTBOUND_CONNECTIONS ∧
      next = { state with dialing := dialer :: state.dialing } := by
  unfold step at stepped
  dsimp only at stepped
  split at stepped
  · cases stepped
  next room =>
    cases stepped
    obtain ⟨unlisted, below⟩ := not_or.mp room
    exact ⟨unlisted, Nat.lt_of_not_le below, rfl⟩

/-- A thread dials only after it has counted. -/
theorem connect_cases {dialer : Dialer} {addr : PeerAddr} {own : Bool}
    {connected : Option (Option Nat)}
    (stepped : step host turns state (.connect dialer addr own connected) = some next) :
    dialer ∈ state.dialing ∧ ∃ server,
      state.server.tick.connectToPeer (turns state.server.turn) addr own connected =
        some server ∧
      next = { state with dialing := state.dialing.erase dialer, server := server } := by
  unfold step at stepped
  dsimp only at stepped
  split at stepped
  next found =>
    obtain ⟨server, dialed, rfl⟩ := Option.map_eq_some_iff.mp stepped
    exact ⟨found, server, dialed, rfl⟩
  · cases stepped

/-- What any step does to the sessions. -/
theorem sessionsStep (stepped : step host turns state call = some next) :
    SessionsStep state.server next.server := by
  cases call with
  | shouldAccept _ =>
      cases stepped
      exact .touched 0 (.refl _)
  | accept _ =>
      obtain ⟨_, ⟨_, rfl⟩ | ⟨addr, shortWrite, _, rfl⟩⟩ := accept_cases stepped
      · exact .touched 0 (.refl _)
      · exact (acceptConnection_step _ _ addr shortWrite).after rfl
  | countOutbound _ =>
      obtain ⟨_, _, rfl⟩ := countOutbound_cases stepped
      exact .touched 0 (.refl _)
  | connect _ _ _ _ =>
      obtain ⟨_, server, dialed, rfl⟩ := connect_cases stepped
      exact (connectToPeer_step dialed).after rfl
  | receive place received =>
      cases stepped
      exact .touched place (P2PServer.processMessages_touched host turns state.server place
        received)
  | sweep =>
      cases stepped
      exact .swept _ rfl
  | ping place timeout =>
      cases stepped
      exact .touched place ((pingPeer_touched _ _ place timeout).after rfl)
  | syncLater =>
      cases stepped
      exact .touched 0 ((syncLaterPeers_touched _ _ 0).after rfl)
  | exchangeAddresses =>
      cases stepped
      exact .touched 0 ((exchangeAddresses_dialed _ _ 0).after rfl)
  | discoverPeers _ =>
      cases stepped
      exact .touched 0 (.of_peers rfl)
  | submitBlock _ _ =>
      cases stepped
      exact .touched 0 ((submitBlock_touched _ _ 0 _ _).after rfl)
  | sendTransaction _ =>
      cases stepped
      exact .touched 0 (.of_peers rfl)
  | getBlockTemplate _ =>
      cases stepped
      exact .touched 0 (.of_peers rfl)

/-- The invariant rule for sessions: what a new session has and every change keeps, all
sessions have at the end of every run. -/
theorem sessions_invariant {Kept : Session → Prop}
    (new : ∀ payload addr inbound shortWrite,
      Kept (P2PServer.greet payload (P2PServer.newPeer addr inbound shortWrite)))
    (keeps : ∀ {own : Prop} {peer after : Session}, Session.Change own peer after → Kept peer →
      Kept after)
    {allowed : Threads → ThreadStep → Prop} {start : Threads} {calls : List ThreadStep}
    {log : List Unit} (run : (machine host turns).Runs allowed start calls log state)
    (base : ∀ peer ∈ start.server.peers, Kept peer) : ∀ peer ∈ state.server.peers, Kept peer := by
  refine @Machine.Runs.invariant _ _ _ _ _ _ (fun _ state => ∀ peer ∈ state.server.peers, Kept peer)
    base ?_ _ _ _ run
  intro log state call next kept _ stepped peer member
  cases sessionsStep stepped with
  | touched place touched =>
      obtain ⟨other, there⟩ := List.getElem?_of_mem member
      obtain ⟨before, listed, changes⟩ := touched.exists_before there
      exact changes.keep keeps (kept before (List.mem_of_getElem? listed))
  | added payload addr inbound shortWrite added =>
      rw [added] at member
      rcases List.mem_append.mp member with older | isNew
      · exact kept peer older
      · rw [List.mem_singleton.mp isNew]
        exact new payload addr inbound shortWrite
  | swept keep swept =>
      rw [swept] at member
      exact kept peer (List.mem_filter.mp member).1

end Threads

/-! ## The order of the messages -/

namespace Session

/-- What holds of the messages written on a session: the first one is the only version, at
most one is a verack and it answers the version of the peer, and only a peer that sent its
verack gets announcements. -/
structure Orderly (peer : Session) : Prop where
  greeted : peer.versionSent = true
  first : (∃ payload rest, peer.output = ⟨.version, payload⟩ :: rest ∧
      ∀ message ∈ rest, message.type ≠ .version) ∨
    peer.output = [] ∧ peer.closed.isSome
  verackOnce : peer.output.countP (fun message => message.type = .verack) ≤ 1
  acknowledged : (∃ message ∈ peer.output, message.type = .verack) →
    peer.verackSent = true ∧ peer.versionReceived = true
  complete : peer.handshakeComplete = peer.verackReceived
  announced : ∀ message ∈ peer.output, message.type.isAnnouncement = true →
    peer.verackReceived = true

variable {own : Prop} {peer next : Session}

theorem orderly_new (payload : Bytes) (addr : PeerAddr) (inbound : Bool)
    (shortWrite : Option Nat) :
    (P2PServer.greet payload (P2PServer.newPeer addr inbound shortWrite)).Orderly := by
  unfold P2PServer.greet
  rcases send_cases { P2PServer.newPeer addr inbound shortWrite with versionSent := true }
    .version payload with ⟨_, same⟩ | ⟨closed, _⟩ | ⟨_, _, same⟩
  · rw [same]
    refine ⟨rfl, .inl ⟨payload, [], rfl, List.forall_mem_nil _⟩, Nat.zero_le 1, ?_, rfl, ?_⟩
    · rintro ⟨message, member, verack⟩
      rw [List.mem_singleton.mp member] at verack
      cases verack
    · intro message member announcement
      rw [List.mem_singleton.mp member] at announcement
      cases announcement
  · cases closed
  · rw [same]
    refine ⟨rfl, .inr ⟨rfl, rfl⟩, Nat.zero_le 1, ?_, rfl, List.forall_mem_nil _⟩
    rintro ⟨message, member, _⟩
    cases member

/-- One more message that is no version: a verack has to be the first, and an announcement
has to follow that of the peer. -/
theorem Orderly.written (orderly : peer.Orderly) (opened : peer.closed = none)
    {type : P2PMsgType} (payload : Bytes) (other : type ≠ .version)
    (verack : type = .verack → (∀ message ∈ peer.output, message.type ≠ .verack) ∧
      peer.verackSent = true ∧ peer.versionReceived = true)
    (announcement : type.isAnnouncement = true → peer.verackReceived = true) :
    ({ peer with output := peer.output ++ [⟨type, payload⟩] } : Session).Orderly where
  greeted := orderly.greeted
  first := by
    rcases orderly.first with ⟨first, rest, written, later⟩ | ⟨_, closed⟩
    · refine .inl ⟨first, rest ++ [⟨type, payload⟩], ?_, ?_⟩
      · dsimp only
        rw [written, List.cons_append]
      · exact List.forall_mem_append.mpr ⟨later, List.forall_mem_singleton.mpr other⟩
    · rw [opened] at closed
      cases closed
  verackOnce := by
    rw [List.countP_append, List.countP_singleton]
    by_cases isVerack : type = .verack
    · have noVerack : peer.output.countP (fun message => message.type = .verack) = 0 :=
        List.countP_eq_zero.mpr fun message member =>
          decide_eq_true_iff.not.mpr ((verack isVerack).1 message member)
      rw [noVerack, if_pos (decide_eq_true isVerack)]
    · rw [if_neg (decide_eq_true_iff.not.mpr isVerack)]
      exact orderly.verackOnce
  acknowledged := by
    rintro ⟨message, member, isVerack⟩
    rcases List.mem_append.mp member with older | isNew
    · exact orderly.acknowledged ⟨message, older, isVerack⟩
    · rw [List.mem_singleton.mp isNew] at isVerack
      exact (verack isVerack).2
  complete := orderly.complete
  announced := by
    intro message member asked
    rcases List.mem_append.mp member with older | isNew
    · exact orderly.announced message older asked
    · rw [List.mem_singleton.mp isNew] at asked
      exact announcement asked

theorem Orderly.closing (orderly : peer.Orderly) (reason : String) :
    ({ peer with closed := some reason } : Session).Orderly where
  greeted := orderly.greeted
  first := orderly.first.imp_right fun unsent => ⟨unsent.1, rfl⟩
  verackOnce := orderly.verackOnce
  acknowledged := orderly.acknowledged
  complete := orderly.complete
  announced := orderly.announced

theorem Orderly.send (orderly : peer.Orderly) {type : P2PMsgType} (payload : Bytes)
    (other : type.isGreeting = false)
    (announcement : type.isAnnouncement = true → peer.verackReceived = true) :
    (peer.send type payload).Orderly := by
  rcases send_cases peer type payload with ⟨opened, same⟩ | ⟨_, same⟩ | ⟨_, _, same⟩
  · rw [same]
    refine orderly.written opened payload ?_ ?_ announcement
    · rintro rfl
      cases other
    · rintro rfl
      cases other
  · rwa [same]
  · rw [same]
    exact orderly.closing _

/-- Every change keeps the order. -/
theorem Orderly.change (change : Change own peer next) (orderly : peer.Orderly) :
    next.Orderly := by
  cases change with
  | greet payload _ unsent _ =>
      rw [orderly.greeted] at unsent
      cases unsent
  | read turn message _ _ =>
      exact ⟨orderly.greeted, orderly.first, orderly.verackOnce,
        fun verack => ⟨(orderly.acknowledged verack).1, rfl⟩, orderly.complete, orderly.announced⟩
  | acknowledge _ received unsent =>
      have noVerack : ∀ message ∈ peer.output, message.type ≠ .verack := by
        intro message member verack
        rw [(orderly.acknowledged ⟨message, member, verack⟩).1] at unsent
        cases unsent
      have flagged : ({ peer with verackSent := true } : Session).Orderly :=
        ⟨orderly.greeted, orderly.first, orderly.verackOnce,
          fun verack => ⟨rfl, (orderly.acknowledged verack).2⟩, orderly.complete,
          orderly.announced⟩
      unfold P2PServer.acknowledge
      rcases send_cases { peer with verackSent := true } .verack [] with
        ⟨opened, same⟩ | ⟨_, same⟩ | ⟨_, _, same⟩
      · rw [same]
        refine flagged.written opened [] ?_ ?_ ?_
        · intro impossible
          cases impossible
        · exact fun _ => ⟨noVerack, rfl, received⟩
        · intro impossible
          cases impossible
      · rwa [same]
      · rw [same]
        exact flagged.closing _
  | complete _ _ _ =>
      exact ⟨orderly.greeted, orderly.first, orderly.verackOnce, orderly.acknowledged, rfl,
        fun _ _ _ => rfl⟩
  | announce type payload other complete =>
      exact orderly.send payload other fun _ => orderly.complete ▸ complete
  | answer type payload _ other asked =>
      refine orderly.send payload other fun announcement => ?_
      rw [asked] at announcement
      cases announcement
  | askFromStart _ _ =>
      have flagged : ({ peer with askedFromStart := true } : Session).Orderly :=
        ⟨orderly.greeted, orderly.first, orderly.verackOnce, orderly.acknowledged,
          orderly.complete, orderly.announced⟩
      refine flagged.send _ rfl ?_
      intro impossible
      cases impossible
  | disconnect reason _ =>
      rcases disconnect_cases peer reason with ⟨same, _⟩ | same
      · rwa [same]
      · rw [same]
        exact orderly.closing reason
  | learn | charge | ping | buffer =>
      exact ⟨orderly.greeted, orderly.first, orderly.verackOnce, orderly.acknowledged,
        orderly.complete, orderly.announced⟩

end Session

/-- **The handshake is in order.** In every run of the threads, on every session: the first
message written is the only version message, at most one is a verack and only after the
version of the peer was read, and announcements are only written after its verack was. -/
theorem sessions_orderly {turn : Turn} {node : Node} {seeds : List PeerAddr}
    {calls : List ThreadStep} {log : List Unit} {state : Threads}
    (run : (Threads.machine host turns).Runs (fun _ _ => True) (Threads.start turn node seeds)
      calls log state) : ∀ peer ∈ state.server.peers, peer.Orderly :=
  Threads.sessions_invariant Session.orderly_new (fun change orderly => orderly.change change) run
    (List.forall_mem_nil _)

/-- A turn at the moment of the first block. -/
def openingTurn : Turn := ⟨0, fun _ => sampleMoment, 0, fun _ => false, false, 0, Digest.zero⟩

/-- The version message of a peer at a height, and its verack. -/
def greetingChunk : Chunk where
  bytes :=
    sendMessage ⟨.version, serializeVersion PROTOCOL_VERSION SERVICES_NODE 0 P2PServer.noAddr
      P2PServer.noAddr 0 P2PServer.userAgent 7⟩ ++ sendMessage ⟨.verack, []⟩
  nonempty := by decide +kernel
  bounded := by decide +kernel

/-- A peer connects and greets. -/
def greetedCalls : List ThreadStep :=
  [.shouldAccept true, .accept (some (P2PServer.noAddr, none)), .receive 0 (.chunk greetingChunk)]

/-- The run in which a peer greets; it is asked for headers then. -/
theorem greetedCalls_run :
    ∃ (log : List Unit) (state : Threads),
      (Threads.machine (Host.ofTables [] []) fun _ => openingTurn).Runs (fun _ _ => True)
        (Threads.start openingTurn (Node.empty fun _ => none) []) greetedCalls log state ∧
      state.server.peers.map (fun peer => peer.output.map Message.type) =
        [[.version, .verack, .getheaders]] := by
  have played : ((Threads.machine (Host.ofTables [] []) fun _ => openingTurn).play
      (Threads.start openingTurn (Node.empty fun _ => none) []) greetedCalls).map
      (fun ended => ended.2.server.peers.map fun peer => peer.output.map Message.type) =
        some [[.version, .verack, .getheaders]] := by
    decide +kernel
  obtain ⟨⟨log, state⟩, ended, outputs⟩ := Option.map_eq_some_iff.mp played
  exact ⟨log, state,
    Machine.Runs.of_play (Machine.Permits.of_forall fun _ _ _ => trivial) ended, outputs⟩

theorem sessions_orderly_greeted :
    ∃ (calls : List ThreadStep) (log : List Unit) (state : Threads),
      (Threads.machine (Host.ofTables [] []) fun _ => openingTurn).Runs (fun _ _ => True)
        (Threads.start openingTurn (Node.empty fun _ => none) []) calls log state ∧
      state.server.peers.map (fun peer => peer.output.map Message.type) =
        [[.version, .verack, .getheaders]] ∧
      ∀ peer ∈ state.server.peers, peer.Orderly := by
  obtain ⟨log, state, run, outputs⟩ := greetedCalls_run
  exact ⟨_, log, state, run, outputs, sessions_orderly run⟩

/-! ## The other sessions -/

namespace Session

/-- A session from one that only was told something: more messages are written on it, if its
handshake is complete, and it may be closed by a short write. -/
structure Told (peer after : Session) (more : List Message) : Prop where
  same : after = { peer with output := peer.output ++ more, closed := after.closed }
  complete : more ≠ [] → peer.handshakeComplete = true
  types : ∀ message ∈ more, message.type.isGreeting = false
  closed : after.closed = peer.closed ∨
    peer.shortWrite = some after.output.length ∧ after.closed = some "Short write"

/-- Changes while the server works on another session. -/
theorem Changes.told {peer after : Session} (changes : Changes False peer after) :
    ∃ more, peer.Told after more := by
  induction changes with
  | refl =>
      refine ⟨[], ?_, fun nonempty => absurd rfl nonempty, List.forall_mem_nil _, .inl rfl⟩
      rw [List.append_nil]
  | @tail middle after _ change ih =>
      obtain ⟨more, told⟩ := ih
      cases change with
      | announce type payload other complete =>
          rcases send_cases middle type payload with ⟨opened, same⟩ | ⟨_, same⟩ | ⟨_, short, same⟩
          · rw [same]
            refine ⟨more ++ [⟨type, payload⟩], ?_, fun _ => ?_, ?_, ?_⟩
            · conv_lhs => rw [told.same]
              rw [List.append_assoc]
            · rw [told.same] at complete
              exact complete
            · exact List.forall_mem_append.mpr ⟨told.types, List.forall_mem_singleton.mpr other⟩
            · refine .inl ?_
              rcases told.closed with closed | ⟨_, closed⟩
              · exact closed
              · rw [opened] at closed
                cases closed
          · rw [same]
            exact ⟨more, told⟩
          · rw [same]
            refine ⟨more, ?_, told.complete, told.types, .inr ⟨?_, rfl⟩⟩
            · conv_lhs => rw [told.same]
            · rw [told.same] at short
              dsimp only at short ⊢
              rw [told.same]
              exact short
      | _ => contradiction

end Session

/-- **Peers are apart.** Whatever bytes a peer sends and in whatever state the server is, each
session of another peer keeps its flags, its score and its inventory. Messages may be written
on it once its handshake is complete, and only a short write can close it. -/
theorem others_told (host : Host) (turns : Nat → Turn) (server : P2PServer) {place other : Nat}
    (received : Received) (apart : other ≠ place) {peer : Session}
    (there : server.peers[other]? = some peer) :
    ∃ after more, (server.processMessages host turns place received).peers[other]? = some after ∧
      peer.Told after more := by
  obtain ⟨after, listed, changes⟩ :=
    (P2PServer.processMessages_touched host turns server place received).exists_after there
  rw [eq_false apart] at changes
  obtain ⟨more, told⟩ := changes.told
  exact ⟨after, more, listed, told⟩

/-- Two sessions with complete handshakes. -/
def twoSessions : P2PServer where
  node := Node.empty fun _ => none
  branches := ⟨[], []⟩
  addrman := AddrMan.empty
  peers := List.replicate 2 { P2PServer.newPeer P2PServer.noAddr true none with
    versionSent := true, versionReceived := true, verackReceived := true
    handshakeComplete := true }
  bestHeight := 0
  turn := 0

/-- A transaction of one byte. -/
def txChunk : Chunk := ⟨sendMessage ⟨.tx, [1]⟩, by decide +kernel, by decide +kernel⟩

/-- A transaction of a peer is announced to another one. -/
theorem others_told_inv :
    ∃ (server : P2PServer) (place other : Nat) (received : Received) (peer : Session),
      other ≠ place ∧ server.peers[other]? = some peer ∧
      ∃ after more, (server.processMessages (Host.ofTables [] []) (fun _ => openingTurn) place
          received).peers[other]? = some after ∧
        peer.Told after more ∧ more ≠ [] := by
  have announced : ((twoSessions.processMessages (Host.ofTables [] []) (fun _ => openingTurn) 0
      (.chunk txChunk)).peers[1]?.map fun peer => peer.output.length) = some 1 := by
    decide +kernel
  obtain ⟨after, more, listed, told⟩ := others_told (Host.ofTables [] []) (fun _ => openingTurn)
    twoSessions (.chunk txChunk) one_ne_zero rfl
  refine ⟨twoSessions, 0, 1, .chunk txChunk, _, one_ne_zero, rfl, after, more, listed, told, ?_⟩
  rintro rfl
  rw [listed, told.same] at announced
  cases announced

end PiSecure
