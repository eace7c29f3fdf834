import PiSecure.Model.AddrMan
import PiSecure.Model.Branches
import PiSecure.Model.Frames
import PiSecure.Model.Locator
import PiSecure.Model.Machine

/-! # Sessions with peers

`Peer` and the message handlers of `P2PServer` in `p2p.cpp`: what a connection
remembers, what the server sends in answer to a message, and what it charges a
peer for. The connections to learned addresses are made by events of their own.
-/

namespace PiSecure

def SERVICES_NODE : UInt32 := 1

def BAN_SCORE_THRESHOLD : Nat := 100

/-- `InvType`. -/
inductive InvType where
  | error | tx | block

def InvType.toUInt32 : InvType → UInt32
  | .error => 0
  | .tx => 1
  | .block => 2

/-- `Peer`: the state of a connection. It holds the messages written so far, and the
number of messages after which a write falls short, when one does. -/
structure Session where
  address : PeerAddr
  inbound : Bool
  shortWrite : Option Nat
  handshakeComplete : Bool := false
  versionReceived : Bool := false
  verackReceived : Bool := false
  versionSent : Bool := false
  verackSent : Bool := false
  banScore : Nat := 0
  version : UInt32 := 0
  services : UInt32 := 0
  startHeight : UInt32 := 0
  askedFromStart : Bool := false
  userAgent : Bytes := []
  pingNonce : UInt64 := 0
  knownInv : Finset InvVect := ∅
  recvBuffer : Bytes := []
  output : List Message := []
  closed : Option String := none
deriving DecidableEq

namespace Session

/-- `Peer::sendMessage` on the socket of the session. A short write closes it. -/
def send (peer : Session) (type : P2PMsgType) (payload : Bytes) : Session :=
  if peer.closed.isSome then peer
  else if peer.shortWrite = some peer.output.length then { peer with closed := some "Short write" }
  else { peer with output := peer.output ++ [⟨type, payload⟩] }

/-- `increaseBanScore`. -/
def increaseBanScore (peer : Session) (amount : Nat) : Session :=
  { peer with banScore := peer.banScore + amount }

/-- `shouldBan`. -/
def shouldBan (peer : Session) : Bool := peer.banScore ≥ BAN_SCORE_THRESHOLD

/-- `disconnectPeer`. -/
def disconnect (peer : Session) (reason : String) : Session :=
  if peer.closed.isSome then peer else { peer with closed := some reason }

end Session

/-- The bytes of a stored block or a pooled transaction. -/
def Payload.bytes : Payload → Bytes
  | .doc json => json.dump.bytes
  | .raw bytes => bytes

namespace Storage

/-- `read_block`. -/
def readBlock (storage : Storage) (index : Nat) : Option Bytes :=
  storage.frames[index]?.map Payload.bytes

/-- `get_transaction`. -/
def getTransaction (storage : Storage) (hash : Digest) : Option Transaction :=
  storage.mempool.lookup hash

end Storage

/-- What the handling of a message takes from outside: the clock, the moments of the
calls of the node, random bits, the addresses of this host, whether a learned address is
dialed, and what is found in a variable that a decoder leaves alone. -/
structure Turn where
  now : UInt64
  moments : Nat → Moment
  nonce : UInt64
  isOwnAddress : UInt32 → Bool
  dials : Bool
  leftHeight : UInt32
  leftHash : Digest

/-- `P2PServer`, with the number of the turn. -/
structure P2PServer where
  node : Node
  branches : Branches
  addrman : AddrMan
  peers : List Session
  bestHeight : Nat
  turn : Nat

namespace P2PServer

/-- Change the peer at a place. -/
def update (server : P2PServer) (place : Nat) (change : Session → Session) : P2PServer :=
  { server with peers := server.peers.modify place change }

/-- Send to the peer at a place. -/
def send (server : P2PServer) (place : Nat) (type : P2PMsgType) (payload : Bytes) : P2PServer :=
  server.update place fun peer => peer.send type payload

/-- Charge the peer at a place. -/
def charge (server : P2PServer) (place amount : Nat) : P2PServer :=
  server.update place fun peer => peer.increaseBanScore amount

/-- `sendToAll`: to the peers whose handshake is complete. -/
def sendToAll (server : P2PServer) (type : P2PMsgType) (payload : Bytes) : P2PServer :=
  { server with
    peers := server.peers.map fun peer =>
      if peer.handshakeComplete then peer.send type payload else peer }

/-- The height of the tip, when there is one, becomes the best height. -/
def refreshHeight (server : P2PServer) : P2PServer :=
  if server.node.storage.hasTip then { server with bestHeight := server.node.storage.bestHeight }
  else server

/-- `broadcastInv`. -/
def broadcastInv (server : P2PServer) (type : InvType) (hash : Digest) : P2PServer :=
  server.sendToAll .inv (serializeInv [⟨type.toUInt32, hash⟩])

/-- `gossipBlock`. -/
def gossipBlock (server : P2PServer) (raw : Bytes) (hash : Digest) : P2PServer :=
  let server := server.refreshHeight.broadcastInv .block hash
  if raw.isEmpty then server else server.sendToAll .block raw

/-! ## Sending -/

def userAgent : Bytes := Text.bytes "/pisecured:1.0/".toList

/-- A `PeerAddr` with all fields zero. -/
def noAddr : PeerAddr := ⟨0, 0, 0, 0, 0, 0⟩

/-- A session with its version message sent. -/
def greet (payload : Bytes) (peer : Session) : Session :=
  { peer with versionSent := true }.send .version payload

/-- The version message for a peer. -/
def versionPayload (turn : Turn) (server : P2PServer) (peer : Session) : Bytes :=
  serializeVersion PROTOCOL_VERSION SERVICES_NODE turn.now peer.address noAddr turn.nonce userAgent
    (UInt32.ofNat server.bestHeight)

/-- `sendVersion`. -/
def sendVersion (turn : Turn) (server : P2PServer) (place : Nat) : P2PServer :=
  match server.peers[place]? with
  | none => server
  | some peer =>
      if peer.versionSent || peer.closed.isSome then server
      else
        let server := server.refreshHeight
        server.update place (greet (server.versionPayload turn peer))

/-- A session with its verack sent. -/
def acknowledge (peer : Session) : Session := { peer with verackSent := true }.send .verack []

/-- `sendVerack`. -/
def sendVerack (server : P2PServer) (place : Nat) : P2PServer :=
  match server.peers[place]? with
  | none => server
  | some peer =>
      if peer.verackSent || peer.closed.isSome then server
      else server.update place acknowledge

/-- The addresses that the book gives out. -/
def known (server : P2PServer) (now : UInt64) (n : Nat) : List PeerAddr :=
  ((server.addrman.getMany now n).map Prod.fst).getD []

/-- `sendAddr` on a session. -/
def sendAddr (addrs : List PeerAddr) (peer : Session) : Session :=
  if addrs.isEmpty then peer else peer.send .addr (serializeAddr addrs)

/-- The answers of `exchangeAddresses` to the peers. -/
def exchangeAddresses (turn : Turn) (server : P2PServer) : P2PServer :=
  { server with
    peers := server.peers.map fun peer =>
      if peer.handshakeComplete && peer.closed.isNone then
        sendAddr (server.known turn.now 1000) peer
      else peer }

/-- The request for the headers behind a locator. -/
def askHeaders (server : P2PServer) (place : Nat) (locatorHashes : List Digest) : P2PServer :=
  server.send place .getheaders (serializeGetHeaders locatorHashes Digest.zero)

/-- A session on which the headers from the start are asked for. -/
def askFromStart (peer : Session) : Session :=
  { peer with askedFromStart := true }.send .getheaders (serializeGetHeaders [] Digest.zero)

/-- What `dialDirectoryPeers` changes here: the version message to a dialed peer is sent
with the height of the tip. -/
def dialDirectoryPeers (turn : Turn) (server : P2PServer) : P2PServer :=
  if turn.dials then server.refreshHeight else server

/-! ## The handshake -/

/-- What `handleVersion` reads into a session. -/
def readVersion (turn : Turn) (message : VersionMessage) (peer : Session) : Session :=
  { peer with
    versionReceived := true
    version := message.version
    services := message.services
    startHeight := message.startHeight.getD turn.leftHeight
    userAgent := message.userAgent }

/-- `handleVersion`. -/
def handleVersion (turn : Turn) (server : P2PServer) (place : Nat) (peer : Session)
    (payload : Bytes) : P2PServer :=
  if peer.versionReceived then server
  else
    match decode deserializeVersion payload with
    | none => server
    | some none => server.charge place 10
    | some (some message) =>
        let server := server.update place (readVersion turn message)
        if peer.inbound && turn.isOwnAddress peer.address.sinAddr then
          server.update place fun peer => peer.disconnect "self-peer"
        else
          let server := server.sendVerack place
          if peer.inbound then server.sendVersion turn place else server

/-- The flags that `handleVerack` sets. -/
def completeHandshake (peer : Session) : Session :=
  { peer with verackReceived := true, handshakeComplete := true }

/-- `handleVerack`. -/
def handleVerack (turn : Turn) (server : P2PServer) (place : Nat) (peer : Session) : P2PServer :=
  if peer.verackReceived || peer.handshakeComplete then server
  else
    let server := server.update place completeHandshake
    let server := server.update place (sendAddr (server.known turn.now 1000))
    let server := (server.exchangeAddresses turn).dialDirectoryPeers turn
    if peer.startHeight.toNat > server.bestHeight then
      server.askHeaders place server.node.storage.getBlockLocatorHashes
    else server

/-- `handleAddr`: the addresses join the book and are dialed. -/
def handleAddr (turn : Turn) (server : P2PServer) (payload : Bytes) : P2PServer :=
  match decode deserializeAddr payload with
  | some (some addrs) =>
      { server with
        addrman := addrs.foldl
          (fun book addr => ((book.add turn.now addr).map Prod.snd).getD book)
          server.addrman }.dialDirectoryPeers turn
  | _ => server

/-! ## Inventory -/

/-- Whether an item is a block that is stored. -/
def hasBlock (storage : Storage) (inv : InvVect) : Bool :=
  inv.type = InvType.block.toUInt32 && (storage.blockIndex inv.hash).isSome

/-- The loop of `handleInv`: the items to request, and the items known then. -/
def newInventory (storage : Storage) : List InvVect → Finset InvVect → List InvVect × Finset InvVect
  | [], knownInv => ([], knownInv)
  | inv :: rest, knownInv =>
      if hasBlock storage inv ∨ inv ∈ knownInv then newInventory storage rest knownInv
      else
        let later := newInventory storage rest (insert inv knownInv)
        (inv :: later.1, later.2)

/-- `handleInv`. -/
def handleInv (server : P2PServer) (place : Nat) (peer : Session) (payload : Bytes) : P2PServer :=
  match decode deserializeInv payload with
  | none => server
  | some none => server.charge place 10
  | some (some invs) =>
      let fresh := newInventory server.node.storage invs peer.knownInv
      let server := server.update place fun peer => { peer with knownInv := fresh.2 }
      if fresh.1.isEmpty then server else server.send place .getdata (serializeGetData fresh.1)

/-- The message by which an item is served; none when it is not there. -/
def served (storage : Storage) (inv : InvVect) : Option Message :=
  if inv.type = InvType.block.toUInt32 then
    ((storage.blockIndex inv.hash).bind storage.readBlock).map fun bytes => ⟨.block, bytes⟩
  else if inv.type = InvType.tx.toUInt32 then
    (storage.getTransaction inv.hash).map fun tx => ⟨.tx, tx.data.bytes⟩
  else none

/-- `handleGetData`. -/
def handleGetData (server : P2PServer) (place : Nat) (payload : Bytes) : P2PServer :=
  match decode deserializeInv payload with
  | none => server
  | some none => server.charge place 10
  | some (some invs) =>
      (invs.filterMap (served server.node.storage)).foldl
        (fun server message => server.send place message.type message.payload) server

/-! ## Headers -/

/-- `handleGetHeaders`. -/
def handleGetHeaders (turn : Turn) (server : P2PServer) (place : Nat) (payload : Bytes) :
    P2PServer :=
  match decode deserializeGetHeaders payload with
  | none => server
  | some none => server.charge place 10
  | some (some (locatorHashes, hashStop)) =>
      let headers := PiSecure.handleGetHeaders server.node.storage locatorHashes
        (hashStop.getD turn.leftHash)
      if headers.isEmpty then server else server.send place .headers (serializeHeaders headers)

/-- What the loop of `handleHeaders` finds: blocks to request, a first header without a
known parent, or a header that does not follow the one before. -/
inductive HeadersOutcome where
  | request (blocks : List InvVect)
  | unconnected
  | broken
deriving DecidableEq

/-- The blocks of headers that are not stored. -/
def missing (storage : Storage) (headers : List BlockHeader) : List InvVect :=
  (headers.filter fun header => (storage.blockIndex header.hash).isNone).map fun header =>
    ⟨InvType.block.toUInt32, header.hash⟩

/-- The loop of `handleHeaders`. The heights that it gives to the headers are not used. -/
def checkHeaders (storage : Storage) (headers : List BlockHeader) : HeadersOutcome :=
  match headers with
  | [] => .request []
  | first :: rest =>
      if first.prevBlockHash ≠ Digest.zero ∧
          (storage.getHeaderByHash first.prevBlockHash).isNone then
        .unconnected
      else if linked first rest then .request (missing storage (first :: rest))
      else .broken
where
  /-- Whether every header names the one before as its parent. -/
  linked : BlockHeader → List BlockHeader → Bool
    | _, [] => true
    | before, after :: rest => after.prevBlockHash = before.hash && linked after rest

/-- `handleHeaders`. -/
def handleHeaders (server : P2PServer) (place : Nat) (peer : Session) (payload : Bytes) :
    P2PServer :=
  match decode deserializeHeaders payload with
  | none => server
  | some none => server.update place fun peer => peer.disconnect "invalid header payload"
  | some (some (headers, consumed)) =>
      if consumed ≠ payload.length then
        server.update place fun peer => peer.disconnect "invalid header payload"
      else
        match checkHeaders server.node.storage headers with
        | .unconnected =>
            if peer.askedFromStart then server else server.update place askFromStart
        | .broken => server.update place fun peer => peer.disconnect "invalid header chain"
        | .request blocks =>
            let server :=
              if blocks.isEmpty then server
              else server.send place .getdata (serializeGetData blocks)
            if headers.length = 2000 then
              server.askHeaders place (headers.getLast?.map BlockHeader.hash).toList
            else server

/-! ## Blocks -/

/-- Gossip of the block that a submission connected. -/
def gossipConnection {host : Host} (server : P2PServer) (connected : List (Accepted host)) :
    P2PServer :=
  connected.foldl
    (fun server accepted =>
      server.gossipBlock accepted.checked.stored.dump.bytes accepted.hash) server

/-- The bodies that `adoptLaterPeerChain` puts on the active chain. -/
def adopted (host : Host) (turn : Turn) (moments : Nat → Moment) (server : P2PServer) :
    List Json :=
  match bestCandidate server.node.storage server.branches.heldBlocks server.branches.refusedTips
      turn.now with
  | none => []
  | some best =>
      match rpcAdoptPeerChain host moments server.node best.ancestor best.bodies with
      | (_, .done) => best.bodies
      | _ => []

/-- Gossip of an adopted body, when its hash parses. -/
def gossipBody (server : P2PServer) (body : Json) : P2PServer :=
  match (body.text? "hash").bind fromHex with
  | none => server
  | some hash => server.gossipBlock body.dump.bytes hash

/-- `adoptLaterPeerChain` with the gossip of `rpc_adopt_peer_chain`. -/
def adoptLater (host : Host) (turn : Turn) (moments : Nat → Moment) (server : P2PServer) :
    P2PServer :=
  let outcome := adoptLaterPeerChain host turn.now moments server.branches server.node
  (server.adopted host turn moments).foldl gossipBody
    { server with branches := outcome.1, node := outcome.2 }

/-- Whether a rejection is about the proof of work or of the hardware. -/
def proofReason (reason : String) : Bool :=
  occursIn "pihash".toList reason.toList || occursIn "PoW".toList reason.toList ||
    occursIn "hw_proof".toList reason.toList

/-- What follows a rejected JSON body in `handleBlock`. -/
def rejectedBlock (host : Host) (turn : Turn) (server : P2PServer) (place : Nat) (peer : Session)
    (block : Json) (reason : String) : P2PServer :=
  if (block.valueOr "hash" Json.asText? []).isNone then server.charge place 10
  else if offTip reason then
    let noted := { server with
      branches := { server.branches with
        heldBlocks := noteOffTipBlock server.branches.heldBlocks block } }
    let server :=
      (noted.adoptLater host turn fun number => turn.moments (number + 1)).refreshHeight
    if peer.startHeight.toNat > server.bestHeight then
      server.askHeaders place server.node.storage.getBlockLocatorHashes
    else server
  else if proofReason reason then server
  else server.charge place 20

/-- The JSON branch of `handleBlock`. -/
def handleJsonBlock (host : Host) (turn : Turn) (server : P2PServer) (place : Nat) (peer : Session)
    (block : Json) : P2PServer :=
  match rpcSubmitblock host (turn.moments 0) false server.node block with
  | (next, verdict) =>
      let submitted := { server with node := next }.gossipConnection
        (connection host (turn.moments 0) false server.node block)
      match verdict with
      | .accepted _ _ _ => { submitted with bestHeight := submitted.node.storage.bestHeight }
      | .refused (.reason reason) => submitted.rejectedBlock host turn place peer block reason
      | .refused .thrown => submitted.charge place 10

/-- The binary branch of `handleBlock`. -/
def handleBinaryBlock (host : Host) (server : P2PServer) (place : Nat) (payload : Bytes) :
    P2PServer :=
  if payload.length < 112 then server.charge place 10
  else
    let header := binaryHeader host payload
    if ¬Storage.validateBlockPow header.hash header.difficulty then server.charge place 50
    else
      match server.node.storage.getHeaderByHash header.prevBlockHash with
      | none => server
      | some prevHeader =>
          let placed := { header with height := prevHeader.height + 1 }
          if ¬Storage.validateBlockHeader placed prevHeader then server.charge place 30
          else
            { server with
              node := { server.node with
                storage := server.node.storage.storeBlockWithHeader placed.hash placed
                  (.raw payload) } }.broadcastInv .block placed.hash

/-- `handleBlock`. -/
def handleBlock (host : Host) (turn : Turn) (server : P2PServer) (place : Nat) (peer : Session)
    (payload : Bytes) : P2PServer :=
  if isJsonBody payload then
    if payload.length > kMaxBlockBytes then server.charge place 20
    else
      match host.parse payload with
      | none => server.charge place 10
      | some block => server.handleJsonBlock host turn place peer block
  else server.handleBinaryBlock host place payload

/-! ## Transactions and pings -/

/-- The number of inputs that a payload lists, when it is a document with inputs. -/
def listedInputs (host : Host) (payload : Bytes) : Nat :=
  if isJsonBody payload then
    (((host.parse payload).bind fun obj => obj.array? "inputs").map List.length).getD 0
  else 0

/-- `handleTx`. -/
def handleTx (host : Host) (server : P2PServer) (place : Nat) (payload : Bytes) : P2PServer :=
  let hash := host.sha256 payload
  if server.node.storage.hasTransaction hash then server
  else if payload.length > kMaxTxJsonBytes ∨ listedInputs host payload > kMaxTxInputs then
    server.charge place 10
  else
    { server with
      node := { server.node with
        storage := server.node.storage.addTransaction ⟨hash, .raw payload⟩ } }.broadcastInv .tx hash

/-- `handlePing`. -/
def handlePing (server : P2PServer) (place : Nat) (payload : Bytes) : P2PServer :=
  match decode deserializePing payload with
  | some (some nonce) => server.send place .pong (serializePing nonce)
  | _ => server

/-! ## Dispatching -/

/-- The handler of a message from the peer at a place. A pong only changes times, and
alerts are ignored while the coordinated defense is off. -/
def handle (host : Host) (turn : Turn) (server : P2PServer) (place : Nat) (message : Message) :
    P2PServer :=
  match server.peers[place]? with
  | none => server
  | some peer =>
      match message.type with
      | .version => server.handleVersion turn place peer message.payload
      | .verack => server.handleVerack turn place peer
      | .addr => server.handleAddr turn message.payload
      | .inv => server.handleInv place peer message.payload
      | .getdata => server.handleGetData place message.payload
      | .getheaders => server.handleGetHeaders turn place message.payload
      | .headers => server.handleHeaders place peer message.payload
      | .block => server.handleBlock host turn place peer message.payload
      | .tx => server.handleTx host place message.payload
      | .ping => server.handlePing place message.payload
      | .pong | .threatAlert | .reject | .getblocks => server

/-- Why the connection at a place is closed. -/
def closedAt (server : P2PServer) (place : Nat) : Option String :=
  server.peers[place]?.bind Session.closed

/-- The handlers of the connection at a place, each on a turn of its own. -/
def handlers (host : Host) (turns : Nat → Turn) (place : Nat) : Handlers P2PServer where
  handle server message :=
    let next :=
      { server.handle host (turns server.turn) place message with turn := server.turn + 1 }
    (next, next.closedAt place)
  shouldBan server := server.peers[place]?.any Session.shouldBan
  ban server :=
    match server.peers[place]? with
    | none => server
    | some peer =>
        { server with
          addrman := ((server.addrman.ban (turns server.turn).now peer.address).map Prod.snd).getD
            server.addrman }

/-- `processMessages` for the connection at a place. -/
def processMessages (host : Host) (turns : Nat → Turn) (server : P2PServer) (place : Nat)
    (received : Received) : P2PServer :=
  match server.peers[place]? with
  | none => server
  | some peer =>
      let final := PiSecure.processMessages (handlers host turns place)
        ⟨server, peer.recvBuffer, peer.closed, []⟩ received
      final.server.update place fun peer =>
        { peer with recvBuffer := final.recvBuffer, closed := final.closed }

/-- One message for the connection at a place, and what follows its handler. -/
def deliver (host : Host) (turns : Nat → Turn) (server : P2PServer) (place : Nat)
    (message : Message) : P2PServer :=
  if (server.closedAt place).isSome then server
  else
    let final := afterDispatch (handlers host turns place)
      (dispatch (handlers host turns place) ⟨server, [], none, []⟩ message)
    final.server.update place fun peer => { peer with closed := final.closed }

end P2PServer

end PiSecure
