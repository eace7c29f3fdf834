import PiSecure.Theory.Handshake

/-! # Bounds on the connections

The threads look for room before they use it, so the limit of eight outbound connections
may be passed by the threads that looked at the same time, and no further. An open session
never has the score of a ban.
-/

namespace PiSecure

variable {host : Host} {turns : Nat → Turn}

namespace Session

variable {own : Prop} {peer next : Session}

theorem send_inbound (peer : Session) (type : P2PMsgType) (payload : Bytes) :
    (peer.send type payload).inbound = peer.inbound := by
  rcases send_cases peer type payload with ⟨_, same⟩ | ⟨_, same⟩ | ⟨_, _, same⟩ <;> rw [same]

theorem disconnect_inbound (peer : Session) (reason : String) :
    (peer.disconnect reason).inbound = peer.inbound := by
  rcases disconnect_cases peer reason with ⟨same, _⟩ | same <;> rw [same]

theorem Change.inbound (change : Change own peer next) : next.inbound = peer.inbound := by
  cases change with
  | greet payload _ _ _ => exact send_inbound { peer with versionSent := true } _ _
  | acknowledge _ _ _ => exact send_inbound { peer with verackSent := true } _ _
  | announce type payload _ _ => exact send_inbound peer _ _
  | answer type payload _ _ _ => exact send_inbound peer _ _
  | askFromStart _ _ => exact send_inbound { peer with askedFromStart := true } _ _
  | disconnect reason _ => exact disconnect_inbound peer reason
  | read | complete | learn | charge | ping | buffer => rfl

theorem Changes.inbound (changes : Changes own peer next) : next.inbound = peer.inbound := by
  induction changes with
  | refl => rfl
  | tail _ change ih => exact change.inbound.trans ih

end Session

/-! ## Counting sessions -/

namespace P2PServer

variable {server next : P2PServer}

/-- The number of inbound sessions. -/
def inboundCount (server : P2PServer) : Nat := server.peers.countP Session.inbound

/-- Every session is inbound or outbound. -/
theorem inboundCount_add (server : P2PServer) :
    server.inboundCount + server.outboundCount = server.peers.length := by
  rw [List.length_eq_countP_add_countP Session.inbound, inboundCount, outboundCount]
  refine congrArg _ (List.countP_congr fun peer _ => ?_)
  cases peer.inbound <;> decide

/-- The sessions of two servers go the same ways. -/
def SameWays (server next : P2PServer) : Prop :=
  next.peers.map Session.inbound = server.peers.map Session.inbound

theorem SameWays.counts (same : SameWays server next) :
    next.inboundCount = server.inboundCount ∧ next.outboundCount = server.outboundCount := by
  have inbound : ∀ server : P2PServer,
      server.inboundCount = (server.peers.map Session.inbound).countP id := by
    intro server
    rw [List.countP_map]
    rfl
  have outbound : ∀ server : P2PServer,
      server.outboundCount = (server.peers.map Session.inbound).countP not := by
    intro server
    rw [List.countP_map]
    rfl
  rw [inbound, inbound server, outbound, outbound server, same]
  exact ⟨rfl, rfl⟩

end P2PServer

theorem Touched.sameWays {server next : P2PServer} {place : Nat}
    (touched : Touched place server next) : P2PServer.SameWays server next := by
  refine List.ext_getElem? fun other => ?_
  rw [List.getElem?_map, List.getElem?_map]
  cases after : next.peers[other]? with
  | none =>
      have outside := List.getElem?_eq_none_iff.mp after
      rw [touched.length] at outside
      rw [List.getElem?_eq_none outside]
  | some peer =>
      obtain ⟨before, listed, changes⟩ := touched.exists_before after
      rw [listed, Option.map_some, Option.map_some, changes.inbound]

theorem greet_inbound (payload : Bytes) (addr : PeerAddr) (inbound : Bool)
    (shortWrite : Option Nat) :
    (P2PServer.greet payload (P2PServer.newPeer addr inbound shortWrite)).inbound = inbound :=
  Session.send_inbound _ _ _

/-! ## The bounds -/

namespace Threads

/-- The bounds on the connections, with those of the threads that have found room. -/
structure Bounded (state : Threads) : Prop where
  inbound : state.server.inboundCount ≤ MAX_PEERS
  accepting : state.accepting = true → state.server.inboundCount < MAX_PEERS
  distinct : state.dialing.Nodup
  outbound : state.server.outboundCount + state.dialing.length ≤ MAX_OUTBOUND_CONNECTIONS + 2

variable {state next : Threads} {call : ThreadStep}

theorem length_dialing {dialing : List Dialer} (distinct : dialing.Nodup) :
    dialing.length ≤ 3 := by
  have all : ∀ dialer : Dialer, dialer ∈ Dialer.all := by
    intro dialer
    cases dialer <;> decide
  exact (distinct.subperm fun dialer _ => all dialer).length_le

/-- A step that neither opens nor drops sessions. -/
theorem Bounded.sameWays (bounded : state.Bounded) {server : P2PServer}
    (same : P2PServer.SameWays state.server server) :
    ({ state with server := server } : Threads).Bounded where
  inbound := same.counts.1 ▸ bounded.inbound
  accepting := same.counts.1 ▸ bounded.accepting
  distinct := bounded.distinct
  outbound := same.counts.2 ▸ bounded.outbound

theorem addPeer_counts (turn : Turn) (server : P2PServer) (addr : PeerAddr) (inbound : Bool)
    (shortWrite : Option Nat) :
    (server.addPeer turn addr inbound shortWrite).inboundCount =
        server.inboundCount + (if inbound then 1 else 0) ∧
      (server.addPeer turn addr inbound shortWrite).outboundCount =
        server.outboundCount + (if inbound then 0 else 1) := by
  unfold P2PServer.inboundCount P2PServer.outboundCount
  rw [P2PServer.addPeer_eq]
  dsimp only
  rw [List.countP_append, List.countP_append, List.countP_singleton, List.countP_singleton,
    greet_inbound]
  cases inbound <;> exact ⟨rfl, rfl⟩

theorem Bounded.accept (bounded : state.Bounded) (found : state.accepting = true) (turn : Turn)
    (server : P2PServer) (same : server.peers = state.server.peers) (addr : PeerAddr)
    (shortWrite : Option Nat) :
    ({ state with
      accepting := false
      server := server.acceptConnection turn addr shortWrite } : Threads).Bounded := by
  have ways : P2PServer.SameWays state.server server := by
    unfold P2PServer.SameWays
    rw [same]
  have room := bounded.accepting found
  unfold P2PServer.acceptConnection
  split
  · have kept := bounded.sameWays ways
    refine ⟨kept.inbound, ?_, kept.distinct, kept.outbound⟩
    intro impossible
    cases impossible
  · obtain ⟨inbound, outbound⟩ := addPeer_counts turn server addr true shortWrite
    rw [if_pos rfl, ways.counts.1] at inbound
    rw [if_pos rfl, ways.counts.2] at outbound
    refine ⟨?_, ?_, bounded.distinct, ?_⟩
    · dsimp only
      omega
    · intro impossible
      cases impossible
    · dsimp only
      rw [outbound]
      exact bounded.outbound

theorem Bounded.connect (bounded : state.Bounded) {dialer : Dialer}
    (found : dialer ∈ state.dialing) {turn : Turn} {server after : P2PServer}
    (same : server.peers = state.server.peers) {addr : PeerAddr} {own : Bool}
    {connected : Option (Option Nat)}
    (dialed : server.connectToPeer turn addr own connected = some after) :
    ({ state with
      dialing := state.dialing.erase dialer
      server := after } : Threads).Bounded := by
  have ways : P2PServer.SameWays state.server server := by
    unfold P2PServer.SameWays
    rw [same]
  have fewer := List.length_erase_of_mem found
  have nonempty := List.length_pos_of_mem found
  have limit := bounded.outbound
  have counts : after.inboundCount = state.server.inboundCount ∧
      after.outboundCount ≤ state.server.outboundCount + 1 := by
    unfold P2PServer.connectToPeer at dialed
    split at dialed
    · cases dialed
      exact ⟨ways.counts.1, Nat.le_succ_of_le (Nat.le_of_eq ways.counts.2)⟩
    split at dialed
    · obtain ⟨marked, _, rfl⟩ := Option.map_eq_some_iff.mp dialed
      exact ⟨ways.counts.1, Nat.le_succ_of_le (Nat.le_of_eq ways.counts.2)⟩
    next shortWrite =>
      obtain ⟨marked, _, rfl⟩ := Option.map_eq_some_iff.mp dialed
      obtain ⟨inbound, outbound⟩ := addPeer_counts turn server addr false shortWrite
      rw [ways.counts.1] at inbound
      rw [ways.counts.2] at outbound
      exact ⟨inbound, Nat.le_of_eq outbound⟩
  refine ⟨counts.1 ▸ bounded.inbound, fun accepting => counts.1 ▸ bounded.accepting accepting,
    bounded.distinct.erase dialer, ?_⟩
  dsimp only
  omega

/-- Every step keeps the bounds. -/
theorem Bounded.step (bounded : state.Bounded)
    (stepped : Threads.step host turns state call = some next) : next.Bounded := by
  cases call with
  | shouldAccept probeReachable =>
      cases stepped
      refine ⟨bounded.inbound, ?_, bounded.distinct, bounded.outbound⟩
      intro found
      have room := of_decide_eq_true (Bool.and_eq_true_iff.mp found).2
      have all := state.server.inboundCount_add
      dsimp only at room ⊢
      omega
  | accept _ =>
      obtain ⟨found, ⟨_, rfl⟩ | ⟨addr, shortWrite, _, rfl⟩⟩ := accept_cases stepped
      · refine ⟨bounded.inbound, ?_, bounded.distinct, bounded.outbound⟩
        intro impossible
        cases impossible
      · exact bounded.accept found _ state.server.tick rfl addr shortWrite
  | countOutbound dialer =>
      obtain ⟨unlisted, below, rfl⟩ := countOutbound_cases stepped
      have distinct : (dialer :: state.dialing).Nodup :=
        List.nodup_cons.mpr ⟨unlisted, bounded.distinct⟩
      have few := length_dialing distinct
      refine ⟨bounded.inbound, bounded.accepting, distinct, ?_⟩
      dsimp only [MAX_OUTBOUND_CONNECTIONS] at below few ⊢
      omega
  | connect dialer addr own connected =>
      obtain ⟨found, server, dialed, rfl⟩ := connect_cases stepped
      have same : state.server.tick.peers = state.server.peers := rfl
      exact bounded.connect found same dialed
  | receive place received =>
      cases stepped
      exact bounded.sameWays
        (P2PServer.processMessages_touched host turns state.server place received).sameWays
  | sweep =>
      cases stepped
      have inbound : state.server.sweep.inboundCount ≤ state.server.inboundCount :=
        List.Sublist.countP_le List.filter_sublist
      have outbound : state.server.sweep.outboundCount ≤ state.server.outboundCount :=
        List.Sublist.countP_le List.filter_sublist
      have limit := bounded.outbound
      refine ⟨Nat.le_trans inbound bounded.inbound,
        fun accepting => Nat.lt_of_le_of_lt inbound (bounded.accepting accepting),
        bounded.distinct, ?_⟩
      dsimp only
      omega
  | ping place timeout =>
      cases stepped
      have same : state.server.tick.peers = state.server.peers := rfl
      exact bounded.sameWays ((pingPeer_touched _ _ place timeout).after same).sameWays
  | syncLater =>
      cases stepped
      have same : state.server.tick.peers = state.server.peers := rfl
      exact bounded.sameWays ((syncLaterPeers_touched _ _ 0).after same).sameWays
  | exchangeAddresses =>
      cases stepped
      have same : state.server.tick.peers = state.server.peers := rfl
      exact bounded.sameWays ((exchangeAddresses_dialed _ _ 0).after same).sameWays
  | discoverPeers peers =>
      cases stepped
      exact bounded.sameWays rfl
  | submitBlock localPolicy params =>
      cases stepped
      have same : state.server.tick.peers = state.server.peers := rfl
      exact bounded.sameWays ((submitBlock_touched _ _ 0 localPolicy params).after same).sameWays
  | sendTransaction params =>
      cases stepped
      have same : P2PServer.SameWays state.server state.server.tick := rfl
      exact bounded.sameWays same
  | getBlockTemplate params =>
      cases stepped
      exact bounded.sameWays rfl

end Threads

/-- **The connections are bounded.** Whatever the threads do, a server never has more than
125 inbound sessions, nor more than two outbound sessions above their limit of eight: the
threads that dial look for room before they connect. -/
theorem connections_bounded {turn : Turn} {node : Node} {seeds : List PeerAddr}
    {calls : List ThreadStep} {log : List Unit} {state : Threads}
    (run : (Threads.machine host turns).Runs (fun _ _ => True) (Threads.start turn node seeds)
      calls log state) :
    state.server.inboundCount ≤ MAX_PEERS ∧
      state.server.outboundCount ≤ MAX_OUTBOUND_CONNECTIONS + 2 := by
  have bounded : state.Bounded := by
    refine @Machine.Runs.invariant _ _ _ _ _ _ (fun _ state => state.Bounded) ?_
      (fun bounded _ stepped => bounded.step stepped) _ _ _ run
    refine ⟨Nat.zero_le _, fun _ => Nat.succ_pos _, List.nodup_nil, Nat.zero_le _⟩
  exact ⟨bounded.inbound, Nat.le_trans (Nat.le_add_right _ _) bounded.outbound⟩

/-- Seven connections one after the other, and three by threads that all found room. -/
def crowdedCalls : List ThreadStep :=
  (List.replicate 7 [.countOutbound .connectLoop,
    .connect .connectLoop P2PServer.noAddr false (some none)]).flatten ++
  Dialer.all.map .countOutbound ++
  Dialer.all.map fun dialer => .connect dialer P2PServer.noAddr false (some none)

/-- The bound on the outbound sessions is reached. -/
theorem connections_bounded_reached :
    ∃ (calls : List ThreadStep) (log : List Unit) (state : Threads),
      (Threads.machine (Host.ofTables [] []) fun _ => openingTurn).Runs (fun _ _ => True)
        (Threads.start openingTurn (Node.empty fun _ => none) []) calls log state ∧
      state.server.outboundCount = MAX_OUTBOUND_CONNECTIONS + 2 ∧
      state.server.inboundCount ≤ MAX_PEERS ∧
        state.server.outboundCount ≤ MAX_OUTBOUND_CONNECTIONS + 2 := by
  have played : ((Threads.machine (Host.ofTables [] []) fun _ => openingTurn).play
      (Threads.start openingTurn (Node.empty fun _ => none) []) crowdedCalls).map
      (fun ended => ended.2.server.outboundCount) = some (MAX_OUTBOUND_CONNECTIONS + 2) := by
    decide +kernel
  obtain ⟨⟨log, state⟩, ended, crowded⟩ := Option.map_eq_some_iff.mp played
  have run : (Threads.machine (Host.ofTables [] []) fun _ => openingTurn).Runs (fun _ _ => True)
      _ _ _ state := Machine.Runs.of_play (Machine.Permits.of_forall fun _ _ _ => trivial) ended
  exact ⟨_, log, state, run, crowded, connections_bounded run⟩

/-! ## Scores -/

namespace P2PServer

variable {server next : P2PServer} {place : Nat}

/-- No open session has the score of a ban. -/
def Calm (server : P2PServer) : Prop :=
  ∀ peer ∈ server.peers, peer.closed = none → peer.shouldBan = false

/-- A server stays calm when the session that it works on does. -/
theorem Calm.touched (calm : server.Calm) (touched : Touched place server next)
    (own : ∀ peer, next.peers[place]? = some peer → peer.closed = none →
      peer.shouldBan = false) : next.Calm := by
  intro after member opened
  obtain ⟨other, there⟩ := List.getElem?_of_mem member
  by_cases same : other = place
  · exact own after (same ▸ there) opened
  · obtain ⟨peer, listed, changes⟩ := touched.exists_before there
    rw [eq_false same] at changes
    obtain ⟨more, told⟩ := changes.told
    have still : peer.closed = none := by
      rcases told.closed with closed | ⟨_, closed⟩
      · rw [← closed, opened]
      · rw [opened] at closed
        cases closed
    rw [told.same]
    exact calm peer (List.mem_of_getElem? listed) still

/-- A server that works on none of its sessions stays calm. -/
theorem Calm.overheard (calm : server.Calm) (touched : Touched server.peers.length server next) :
    next.Calm := by
  refine calm.touched touched fun peer there => ?_
  rw [← touched.length, List.getElem?_length] at there
  cases there

/-- After a message and what follows it, an open connection has no score of a ban. -/
theorem afterDispatch_calm (peer : Peer P2PServer)
    (opened : (PiSecure.afterDispatch (handlers host turns place) peer).closed = none)
    {session : Session}
    (there : (PiSecure.afterDispatch (handlers host turns place) peer).server.peers[place]? =
      some session) : session.shouldBan = false := by
  unfold PiSecure.afterDispatch at opened there
  split at opened
  next closed =>
    rw [opened] at closed
    cases closed
  next still =>
    rw [if_neg still] at there
    split at opened
    · cases opened
    next unbanned =>
      rw [if_neg unbanned] at there
      unfold handlers at unbanned
      dsimp only at unbanned
      rw [there] at unbanned
      exact Bool.eq_false_iff.mpr unbanned

theorem processFrames_calm (fuel : Nat) {peer : Peer P2PServer}
    (calm : peer.closed = none → ∀ session, peer.server.peers[place]? = some session →
      session.shouldBan = false)
    (opened : (processFrames (handlers host turns place) fuel peer).closed = none)
    {session : Session}
    (there : (processFrames (handlers host turns place) fuel peer).server.peers[place]? =
      some session) : session.shouldBan = false := by
  induction fuel generalizing peer with
  | zero => exact calm opened session there
  | succ fuel ih =>
      rw [processFrames] at opened there
      cases step : processFrame (handlers host turns place) peer with
      | none =>
          rw [step] at opened there
          exact calm opened session there
      | some next =>
          rw [step] at opened there
          refine ih ?_ opened there
          obtain ⟨_, ⟨_, _, reason, _, _, rfl⟩ | ⟨message, rest, _, _, rfl⟩⟩ :=
            processFrame_cases step
          · intro impossible
            cases impossible
          · exact fun still session listed => afterDispatch_calm _ still listed

/-- A pass of the message loop keeps the server calm. -/
theorem Calm.processMessages (calm : server.Calm) (received : Received) :
    (server.processMessages host turns place received).Calm := by
  refine calm.touched (processMessages_touched host turns server place received) ?_
  intro session there opened
  unfold P2PServer.processMessages at there
  cases before : server.peers[place]? with
  | none =>
      rw [before] at there
      rw [before] at there
      cases there
  | some peer =>
      rw [before] at there
      dsimp only at there
      have start : peer.closed = none → ∀ session, server.peers[place]? = some session →
          session.shouldBan = false := by
        intro isOpen session listed
        rw [before] at listed
        cases listed
        exact calm peer (List.mem_of_getElem? before) isOpen
      have final : ∀ after, (PiSecure.processMessages (handlers host turns place)
          ⟨server, peer.recvBuffer, peer.closed, []⟩ received).closed = none →
          (PiSecure.processMessages (handlers host turns place)
            ⟨server, peer.recvBuffer, peer.closed, []⟩ received).server.peers[place]? = some after →
          after.shouldBan = false := by
        intro after isOpen listed
        unfold PiSecure.processMessages at isOpen listed
        split at isOpen
        next closed =>
          rw [isOpen] at closed
          cases closed
        next still =>
          rw [if_neg still] at listed
          cases received with
          | pending => exact start isOpen after listed
          | ended => cases isOpen
          | chunk chunk =>
              refine processFrames_calm _ (fun isOpen session listed => ?_) isOpen listed
              rw [append_opened (Option.not_isSome_iff_eq_none.mp still)] at isOpen listed
              exact start isOpen session listed
      rw [update, List.getElem?_modify_eq] at there
      obtain ⟨after, listed, rfl⟩ := Option.map_eq_some_iff.mp there
      exact final after opened listed

theorem Calm.pingPeer (calm : server.Calm) (turn : Turn) (timeout : Bool) :
    (server.pingPeer turn place timeout).Calm := by
  refine calm.touched (Threads.pingPeer_touched turn server place timeout) ?_
  intro session there opened
  rw [P2PServer.pingPeer, update, List.getElem?_modify_eq] at there
  obtain ⟨peer, listed, rfl⟩ := Option.map_eq_some_iff.mp there
  have kept := calm peer (List.mem_of_getElem? listed)
  dsimp only at opened ⊢
  split at opened
  next complete =>
    rw [if_pos complete]
    have pinged : (sendPing turn.nonce peer).closed = none → peer.closed = none ∧
        (sendPing turn.nonce peer).banScore = peer.banScore := by
      intro isOpen
      rcases Session.send_cases { peer with pingNonce := turn.nonce } .ping
        (serializePing turn.nonce) with ⟨still, same⟩ | ⟨closed, same⟩ | ⟨_, _, same⟩
      · rw [sendPing, same]
        exact ⟨still, rfl⟩
      · rw [sendPing, same] at isOpen
        rw [isOpen] at closed
        cases closed
      · rw [sendPing, same] at isOpen
        cases isOpen
    split at opened
    next late =>
      rcases Session.disconnect_cases (sendPing turn.nonce peer) "Timeout" with
        ⟨same, closed⟩ | same
      · rw [same] at opened
        rw [opened] at closed
        cases closed
      · rw [same] at opened
        cases opened
    next punctual =>
      rw [if_neg punctual]
      obtain ⟨isOpen, score⟩ := pinged opened
      rw [Session.shouldBan, score]
      exact kept isOpen
  next incomplete =>
    rw [if_neg incomplete]
    exact kept opened

/-- A new session has no score. -/
theorem Calm.addPeer (calm : server.Calm) (turn : Turn) (addr : PeerAddr) (inbound : Bool)
    (shortWrite : Option Nat) : (server.addPeer turn addr inbound shortWrite).Calm := by
  intro peer member _
  rw [addPeer_eq] at member
  rcases List.mem_append.mp member with older | isNew
  · exact calm peer older ‹_›
  · rw [List.mem_singleton.mp isNew]
    unfold greet
    rcases Session.send_cases { newPeer addr inbound shortWrite with versionSent := true } .version
      (server.refreshHeight.versionPayload turn (newPeer addr inbound shortWrite)) with
      ⟨_, same⟩ | ⟨_, same⟩ | ⟨_, _, same⟩ <;>
    · rw [same]
      rfl

theorem Calm.acceptConnection (calm : server.Calm) (turn : Turn) (addr : PeerAddr)
    (shortWrite : Option Nat) : (server.acceptConnection turn addr shortWrite).Calm := by
  unfold P2PServer.acceptConnection
  split
  · exact calm
  · exact calm.addPeer _ _ _ _

/-- The address book says nothing of the sessions, and a session that was dialed is new. -/
theorem Calm.connectToPeer (calm : server.Calm) {turn : Turn} {addr : PeerAddr} {own : Bool}
    {connected : Option (Option Nat)}
    (dialed : server.connectToPeer turn addr own connected = some next) : next.Calm := by
  unfold P2PServer.connectToPeer at dialed
  split at dialed
  · cases dialed
    exact calm
  split at dialed
  · obtain ⟨_, _, rfl⟩ := Option.map_eq_some_iff.mp dialed
    exact calm
  · obtain ⟨_, _, rfl⟩ := Option.map_eq_some_iff.mp dialed
    exact calm.addPeer _ _ _ _

end P2PServer

/-- Every step keeps the server calm. -/
theorem Threads.step_calm {state next : Threads} {call : ThreadStep} (calm : state.server.Calm)
    (stepped : Threads.step host turns state call = some next) : next.server.Calm := by
  have ticked : state.server.tick.Calm := calm
  cases call with
  | shouldAccept _ =>
      cases stepped
      exact calm
  | accept _ =>
      obtain ⟨_, ⟨_, rfl⟩ | ⟨addr, shortWrite, _, rfl⟩⟩ := Threads.accept_cases stepped
      · exact calm
      · exact ticked.acceptConnection _ addr shortWrite
  | countOutbound _ =>
      obtain ⟨_, _, rfl⟩ := Threads.countOutbound_cases stepped
      exact calm
  | connect _ _ _ _ =>
      obtain ⟨_, server, dialed, rfl⟩ := Threads.connect_cases stepped
      exact ticked.connectToPeer dialed
  | receive place received =>
      cases stepped
      exact calm.processMessages received
  | sweep =>
      cases stepped
      exact fun peer member => calm peer (List.mem_filter.mp member).1
  | ping place timeout =>
      cases stepped
      exact ticked.pingPeer _ timeout
  | syncLater =>
      cases stepped
      exact ticked.overheard (Threads.syncLaterPeers_touched _ _ _)
  | exchangeAddresses =>
      cases stepped
      exact ticked.overheard (Threads.exchangeAddresses_dialed _ _ _)
  | discoverPeers _ =>
      cases stepped
      exact ticked
  | submitBlock localPolicy params =>
      cases stepped
      exact ticked.overheard (Threads.submitBlock_touched _ _ _ localPolicy params)
  | sendTransaction _ =>
      cases stepped
      exact ticked
  | getBlockTemplate _ =>
      cases stepped
      exact ticked

/-- **An open session has not earned a ban.** In every run of the threads, between their
steps, the score of every open session is below the threshold. -/
theorem open_sessions_calm {turn : Turn} {node : Node} {seeds : List PeerAddr}
    {calls : List ThreadStep} {log : List Unit} {state : Threads}
    (run : (Threads.machine host turns).Runs (fun _ _ => True) (Threads.start turn node seeds)
      calls log state) : state.server.Calm := by
  refine @Machine.Runs.invariant _ _ _ _ _ _ (fun _ state => state.server.Calm)
    (List.forall_mem_nil _) ?_ _ _ _ run
  intro _ state call next calm _ stepped
  exact Threads.step_calm calm stepped

/-- A block message whose header has no proof of work, some times over. -/
private def idleBodies (count : Nat) : Bytes :=
  (List.replicate count (sendMessage
    ⟨.block, List.replicate 76 0 ++ [64] ++ List.replicate 35 0⟩)).flatten

private def idleChunk : Chunk := ⟨idleBodies 1, by decide +kernel, by decide +kernel⟩

private def idleChunks : Chunk := ⟨idleBodies 2, by decide +kernel, by decide +kernel⟩

/-- Two peers connect; the first one is charged once and the second one twice. -/
private def chargedCalls : List ThreadStep :=
  greetedCalls ++ [.shouldAccept true, .accept (some (P2PServer.noAddr, none)),
    .receive 0 (.chunk idleChunk), .receive 1 (.chunk idleChunks)]

/-- A charged session stays open below the score of a ban, and one with that score is
closed. -/
theorem open_sessions_calm_charged :
    ∃ (calls : List ThreadStep) (log : List Unit) (state : Threads),
      (Threads.machine (Host.ofTables [] []) fun _ => openingTurn).Runs (fun _ _ => True)
        (Threads.start openingTurn (Node.empty fun _ => none) []) calls log state ∧
      state.server.peers.map (fun peer => (peer.banScore, peer.closed)) =
        [(50, none), (100, some "Banned")] ∧
      state.server.Calm := by
  have played : ((Threads.machine (Host.ofTables [] []) fun _ => openingTurn).play
      (Threads.start openingTurn (Node.empty fun _ => none) []) chargedCalls).map
      (fun ended => ended.2.server.peers.map fun peer => (peer.banScore, peer.closed)) =
        some [(50, none), (100, some "Banned")] := by
    decide +kernel
  obtain ⟨⟨log, state⟩, ended, scores⟩ := Option.map_eq_some_iff.mp played
  have run := Machine.Runs.of_play (Machine.Permits.of_forall fun _ _ _ => trivial) ended
  exact ⟨_, log, state, run, scores, open_sessions_calm run⟩

end PiSecure
