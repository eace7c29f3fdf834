import PiSecure.Model.Session

/-! # The connections of a server

The threads of `P2PServer` that open, use and drop connections, while the coordinated
defense is off: the accept loop, the connect loop, the message loop, the ping loop and
the heartbeat. A thread that looks for room and one that uses it are different steps,
since other threads run between.
-/

namespace PiSecure

def MAX_PEERS : Nat := 125

def MAX_OUTBOUND_CONNECTIONS : Nat := 8

/-- The threads that call `connectToPeer`. -/
inductive Dialer where
  | connectLoop | messageLoop | heartbeatLoop
deriving DecidableEq

def Dialer.all : List Dialer := [.connectLoop, .messageLoop, .heartbeatLoop]

/-- A server with the threads that have found room: for an inbound connection, and for
outbound ones. -/
structure Threads where
  server : P2PServer
  accepting : Bool
  dialing : List Dialer

/-- A step of a thread. -/
inductive ThreadStep where
  /-- `shouldAcceptConnection`. -/
  | shouldAccept (probeReachable : Bool)
  /-- The rest of `acceptConnection`, with the socket that waits, when one does. -/
  | accept (waiting : Option (PeerAddr × Option Nat))
  /-- The comparison of `getOutboundCount` with its limit. -/
  | countOutbound (dialer : Dialer)
  /-- `connectToPeer`: whether the address is the own one, and the socket that is
  connected, when one is. -/
  | connect (dialer : Dialer) (addr : PeerAddr) (own : Bool) (connected : Option (Option Nat))
  /-- `processMessages`. -/
  | receive (place : Nat) (received : Received)
  /-- The end of a pass of the message loop. -/
  | sweep
  /-- `pingLoop` at one peer. -/
  | ping (place : Nat) (timeout : Bool)
  /-- `syncLaterPeers`. -/
  | syncLater
  /-- `exchangeAddresses` of the heartbeat. -/
  | exchangeAddresses
  /-- `onBootstrapPeerDiscovery`. -/
  | discoverPeers (peers : List PeerAddr)
  /-- `rpc_submitblock` of a miner. -/
  | submitBlock (localPolicy : Bool) (params : Json)
  /-- `rpc_sendtransaction`. -/
  | sendTransaction (params : Json)
  /-- `rpc_getblocktemplate`. -/
  | getBlockTemplate (params : Json)

namespace P2PServer

/-- The server at the next turn. -/
def tick (server : P2PServer) : P2PServer := { server with turn := server.turn + 1 }

/-- `getOutboundCount`. -/
def outboundCount (server : P2PServer) : Nat := server.peers.countP fun peer => !peer.inbound

/-- `Peer::Peer`. -/
def newPeer (addr : PeerAddr) (inbound : Bool) (shortWrite : Option Nat) : Session :=
  { address := addr, inbound := inbound, shortWrite := shortWrite }

/-- A new session at the end, with its version message sent. -/
def addPeer (turn : Turn) (server : P2PServer) (addr : PeerAddr) (inbound : Bool)
    (shortWrite : Option Nat) : P2PServer :=
  sendVersion turn { server with peers := server.peers ++ [newPeer addr inbound shortWrite] }
    server.peers.length

/-- `acceptConnection` on a waiting socket. -/
def acceptConnection (turn : Turn) (server : P2PServer) (addr : PeerAddr)
    (shortWrite : Option Nat) : P2PServer :=
  if server.addrman.isBanned turn.now addr then server
  else server.addPeer turn addr true shortWrite

/-- `connectToPeer`; none when the address book never returns. -/
def connectToPeer (turn : Turn) (server : P2PServer) (addr : PeerAddr) (own : Bool)
    (connected : Option (Option Nat)) : Option P2PServer :=
  if own then some server
  else
    match connected with
    | none =>
        (server.addrman.markFailure turn.now addr).map fun marked =>
          { server with addrman := marked.2 }
    | some shortWrite =>
        let opened := server.addPeer turn addr false shortWrite
        (opened.addrman.markAttempt turn.now addr).map fun marked =>
          { opened with addrman := marked.2 }

/-- The removal of closed and banned peers in `messageLoop`. -/
def sweep (server : P2PServer) : P2PServer :=
  { server with peers := server.peers.filter fun peer => peer.closed.isNone && !peer.shouldBan }

/-- `sendPing` on a session, with the nonce that is drawn. -/
def sendPing (nonce : UInt64) (peer : Session) : Session :=
  { peer with pingNonce := nonce }.send .ping (serializePing nonce)

/-- One peer in a pass of `pingLoop`. -/
def pingPeer (turn : Turn) (server : P2PServer) (place : Nat) (timeout : Bool) : P2PServer :=
  server.update place fun peer =>
    if peer.handshakeComplete then
      let pinged := sendPing turn.nonce peer
      if timeout then pinged.disconnect "Timeout" else pinged
    else peer

/-- `syncLaterPeers`. -/
def syncLaterPeers (host : Host) (turn : Turn) (server : P2PServer) : P2PServer :=
  let server := server.refreshHeight
  let asked : P2PServer := { server with
    peers := server.peers.map fun peer =>
      if !peer.handshakeComplete || peer.closed.isSome ||
          peer.startHeight.toNat ≤ server.bestHeight then peer
      else peer.send .getheaders
        (serializeGetHeaders server.node.storage.getBlockLocatorHashes Digest.zero) }
  (asked.adoptLater host turn turn.moments).refreshHeight

/-- `onBootstrapPeerDiscovery`: the addresses join the book. -/
def discoverPeers (turn : Turn) (server : P2PServer) (peers : List PeerAddr) : P2PServer :=
  { server with
    addrman := peers.foldl (fun book addr => ((book.add turn.now addr).map Prod.snd).getD book)
      server.addrman }

/-- `rpc_submitblock` with the gossip of the block. -/
def submitBlock (host : Host) (turn : Turn) (server : P2PServer) (localPolicy : Bool)
    (params : Json) : P2PServer :=
  gossipConnection
    { server with node := (rpcSubmitblock host (turn.moments 0) localPolicy server.node params).1 }
    (connection host (turn.moments 0) localPolicy server.node params)

end P2PServer

namespace Threads

/-- The state after a step of a thread; none when the thread cannot take it. -/
def step (host : Host) (turns : Nat → Turn) (state : Threads) (next : ThreadStep) :
    Option Threads :=
  let server := state.server
  let turn := turns server.turn
  match next with
  | .shouldAccept probeReachable =>
      some { state with accepting := probeReachable && decide (server.peers.length < MAX_PEERS) }
  | .accept waiting =>
      if state.accepting then
        some { state with
          accepting := false
          server :=
            match waiting with
            | none => server
            | some (addr, shortWrite) => server.tick.acceptConnection turn addr shortWrite }
      else none
  | .countOutbound dialer =>
      if dialer ∈ state.dialing ∨ server.outboundCount ≥ MAX_OUTBOUND_CONNECTIONS then none
      else some { state with dialing := dialer :: state.dialing }
  | .connect dialer addr own connected =>
      if dialer ∈ state.dialing then
        (server.tick.connectToPeer turn addr own connected).map fun server =>
          { state with dialing := state.dialing.erase dialer, server := server }
      else none
  | .receive place received =>
      some { state with server := server.processMessages host turns place received }
  | .sweep => some { state with server := server.sweep }
  | .ping place timeout => some { state with server := server.tick.pingPeer turn place timeout }
  | .syncLater => some { state with server := server.tick.syncLaterPeers host turn }
  | .exchangeAddresses =>
      some { state with
        server := (server.tick.exchangeAddresses turn).dialDirectoryPeers turn }
  | .discoverPeers peers => some { state with server := server.tick.discoverPeers turn peers }
  | .submitBlock localPolicy params =>
      some { state with server := server.tick.submitBlock host turn localPolicy params }
  | .sendTransaction params =>
      some { state with
        server := { server.tick with
          node := (rpcSendtransaction host (turn.moments 0) server.node params).1 } }
  | .getBlockTemplate params =>
      some { state with
        server := { server.tick with
          node := (rpcGetblocktemplate host (turn.moments 0) server.node params).1 } }

/-- The threads as a machine. -/
def machine (host : Host) (turns : Nat → Turn) : Machine Threads ThreadStep Unit where
  step := step host turns
  events _ _ := []

/-- `P2PServer::start` on a node, with the addresses of the configured peers. -/
def start (turn : Turn) (node : Node) (seeds : List PeerAddr) : Threads where
  server :=
    { node := node
      branches := ⟨[], []⟩
      addrman := seeds.foldl (fun book addr => ((book.add turn.now addr).map Prod.snd).getD book)
        AddrMan.empty
      peers := []
      bestHeight := localHeight node.storage
      turn := 0 }
  accepting := false
  dialing := []

end Threads

end PiSecure
