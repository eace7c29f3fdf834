import PiSecure.General.Exchange
import PiSecure.Theory.Handshake
import PiSecure.Theory.StaleBlock
import PiSecure.Theory.Wire

/-! # One connection of a server

A server as a party of an exchange with the peer at one place, and what the handlers
answer on a connection that stays open: the messages that they write, and nothing else
that the next handler could see.
-/

namespace PiSecure

variable {host : Host} {turn : Turn} {turns : Nat → Turn}

namespace Session

/-- A session with more messages written. -/
def wrote (messages : List Message) (peer : Session) : Session :=
  { peer with output := peer.output ++ messages }

@[simp] theorem wrote_nil (peer : Session) : peer.wrote [] = peer := by
  rw [wrote, List.append_nil]

@[simp] theorem wrote_wrote (peer : Session) (messages more : List Message) :
    (peer.wrote messages).wrote more = peer.wrote (messages ++ more) := by
  rw [wrote, wrote, wrote, List.append_assoc]

end Session

namespace P2PServer

variable {place : Nat} {server next : P2PServer} {node : Node} {branches : Branches}
  {peer after : Session}

/-! ## A server as a party -/

theorem closedAt_eq (there : server.peers[place]? = some peer) :
    server.closedAt place = peer.closed := by
  rw [closedAt, there]
  rfl

/-- The messages written to the peer at a place. -/
def written (server : P2PServer) (place : Nat) : List Message :=
  (server.peers[place]?.map Session.output).getD []

theorem written_eq (there : server.peers[place]? = some peer) :
    server.written place = peer.output := by
  rw [written, there]
  rfl

theorem written_grows {other : Nat} (touched : Touched place server next) :
    server.written other <+: next.written other := by
  cases there : server.peers[other]? with
  | none =>
      rw [written, there]
      exact List.nil_prefix
  | some peer =>
      obtain ⟨after, same, changes⟩ := touched.exists_after there
      rw [written_eq there, written_eq same]
      exact changes.output

/-- The server at one end of the connection at a place. -/
def link (host : Host) (turns : Nat → Turn) (place : Nat) : Party P2PServer Message Message where
  receive server message := server.deliver host turns place message
  sent server := server.written place
  sent_receive server message := written_grows (server.deliver_touched host turns place message)

theorem sendVerack_eq (there : server.peers[place]? = some peer)
    (unsent : peer.verackSent = false) (opened : peer.closed = none) :
    server.sendVerack place = server.update place acknowledge := by
  unfold sendVerack
  rw [there]
  dsimp only
  rw [unsent, opened]
  rfl

/-- The height of the tip is already known. -/
theorem refreshHeight_of_height (known : server.bestHeight = server.node.storage.bestHeight) :
    server.refreshHeight = server := by
  unfold refreshHeight
  rw [← known, ite_self]

/-- A change of a session that leaves it as it is. -/
theorem update_same (there : server.peers[place]? = some peer) {change : Session → Session}
    (same : change peer = peer) : server.update place change = server := by
  have kept : server.peers.modify place change = server.peers := by
    refine List.ext_getElem? fun other => ?_
    rw [List.getElem?_modify]
    split
    next here =>
      rw [← here, there]
      exact congrArg some same
    · exact Option.map_id'
  rw [update, kept]

/-- The delivery of a message is the turn of its handler, when that leaves the connection
open. -/
theorem deliver_eq {type : P2PMsgType} {payload : Bytes} (there : server.peers[place]? = some peer)
    (opened : peer.closed = none) (dispatched : type ≠ .reject ∧ type ≠ .getblocks)
    (handled : (server.handle host (turns server.turn) place ⟨type, payload⟩).peers[place]? =
      some after) (opened' : after.closed = none) (calm : after.shouldBan = false) :
    server.deliver host turns place ⟨type, payload⟩ =
      { server.handle host (turns server.turn) place ⟨type, payload⟩ with
        turn := server.turn + 1 } := by
  let message : Message := ⟨type, payload⟩
  let next : P2PServer :=
    { server.handle host (turns server.turn) place message with turn := server.turn + 1 }
  have closed : server.closedAt place = none := (closedAt_eq there).trans opened
  have isOpen : next.closedAt place = none := (closedAt_eq handled).trans opened'
  have calm' : (next.peers[place]?).any Session.shouldBan = false := by
    change ((server.handle host (turns server.turn) place message).peers[place]?).any _ = false
    rw [handled]
    exact calm
  have done : afterDispatch (handlers host turns place)
      (dispatch (handlers host turns place) ⟨server, [], none, []⟩ message) =
      ⟨next, [], none, [message]⟩ := by
    have sent : dispatch (handlers host turns place) ⟨server, [], none, []⟩ message =
        ⟨next, [], none, [message]⟩ := by
      rw [dispatch, if_neg (not_or.mpr dispatched)]
      exact congrArg (Peer.mk _ [] · [message]) isOpen
    rw [sent, afterDispatch]
    exact if_neg (ne_true_of_eq_false calm')
  unfold P2PServer.deliver
  rw [closed, Option.isSome_none, if_neg Bool.false_ne_true, done]
  have kept : ({ after with closed := none } : Session) = after := by rw [← opened']
  exact @update_same place next after handled _ kept

/-! ## An open connection -/

/-- The connection at a place is open, and its session, the node and the held blocks are
these. -/
structure Open (place : Nat) (node : Node) (branches : Branches) (peer : Session)
    (server : P2PServer) : Prop where
  node_eq : server.node = node
  branches_eq : server.branches = branches
  bestHeight : server.bestHeight = node.storage.bestHeight
  there : server.peers[place]? = some peer
  opened : peer.closed = none
  steady : peer.shortWrite = none
  calm : peer.shouldBan = false

namespace Open

variable (is : Open place node branches peer server)
include is

/-- A change of the session that leaves the connection open. -/
theorem update {change : Session → Session} (same : change peer = after)
    (opened : after.closed = none) (steady : after.shortWrite = none)
    (calm : after.shouldBan = false) :
    Open place node branches after (server.update place change) :=
  { is with
    there := by rw [peers_update is.there, same]
    opened := opened
    steady := steady
    calm := calm }

theorem written : server.written place = peer.output := written_eq is.there

/-- The session with more messages written, in the place of the old one. -/
theorem wrote (messages : List Message)
    (there : next.peers[place]? = some (peer.wrote messages)) (node_eq : next.node = server.node)
    (branches_eq : next.branches = server.branches)
    (bestHeight : next.bestHeight = server.bestHeight) :
    Open place node branches (peer.wrote messages) next where
  node_eq := node_eq.trans is.node_eq
  branches_eq := branches_eq.trans is.branches_eq
  bestHeight := bestHeight.trans is.bestHeight
  there := there
  opened := is.opened
  steady := is.steady
  calm := is.calm

theorem send_eq (type : P2PMsgType) (payload : Bytes) :
    peer.send type payload = peer.wrote [⟨type, payload⟩] :=
  Session.send_open is.opened is.steady type payload

theorem send (type : P2PMsgType) (payload : Bytes) :
    Open place node branches (peer.wrote [⟨type, payload⟩]) (server.send place type payload) := by
  refine is.wrote _ ?_ rfl rfl rfl
  rw [P2PServer.send, peers_update is.there, is.send_eq]

theorem refreshHeight_eq : server.refreshHeight = server :=
  refreshHeight_of_height (by rw [is.node_eq, is.bestHeight])

theorem dialDirectoryPeers_eq (turn : Turn) : server.dialDirectoryPeers turn = server := by
  unfold dialDirectoryPeers
  split
  · exact is.refreshHeight_eq
  · rfl

/-- The addresses that are sent to a peer, when there are some. -/
theorem sendAddr_eq (addrs : List PeerAddr) :
    ∃ noise : List Message, (∀ message ∈ noise, message.type = .addr) ∧
      sendAddr addrs peer = peer.wrote noise := by
  unfold sendAddr
  split
  · exact ⟨[], List.forall_mem_nil _, peer.wrote_nil.symm⟩
  · exact ⟨[_], List.forall_mem_singleton.mpr rfl, is.send_eq _ _⟩

/-- What the delivery of a message does, when its handler leaves the connection open. -/
theorem deliver {type : P2PMsgType} {payload : Bytes} {node' : Node} {branches' : Branches}
    (dispatched : type ≠ .reject ∧ type ≠ .getblocks)
    (handled : Open place node' branches' after
      (server.handle host (turns server.turn) place ⟨type, payload⟩)) :
    Open place node' branches' after (server.deliver host turns place ⟨type, payload⟩) := by
  rw [deliver_eq is.there is.opened dispatched handled.there handled.opened handled.calm]
  exact { handled with }

/-! ## The handshake -/

omit is in
/-- A new session with its version message written. -/
def newcomer (turn : Turn) (server : P2PServer) (addr : PeerAddr) (inbound : Bool) : Session :=
  { newPeer addr inbound none with versionSent := true }.wrote
    [⟨.version, server.versionPayload turn (newPeer addr inbound none)⟩]

omit is in
theorem of_addPeer (turn : Turn) (addr : PeerAddr) (inbound : Bool)
    (height : server.bestHeight = server.node.storage.bestHeight) :
    Open server.peers.length server.node server.branches (newcomer turn server addr inbound)
      (server.addPeer turn addr inbound none) := by
  rw [addPeer_eq, refreshHeight_of_height height]
  exact ⟨rfl, rfl, height, List.getElem?_concat_length, rfl, rfl, rfl⟩

omit is in
/-- The version message that a server reads of another one. -/
theorem decode_versionPayload (turn : Turn) (server : P2PServer) (peer : Session) :
    decode deserializeVersion (server.versionPayload turn peer) =
      some (some ⟨PROTOCOL_VERSION, SERVICES_NODE, turn.now, userAgent,
        some (UInt32.ofNat server.bestHeight)⟩) :=
  deserializeVersion_serializeVersion _ _ _ _ _ _ (by decide +kernel) _

omit is in
/-- A session that has read the version of its peer and acknowledged it. -/
def greeted (turn : Turn) (message : VersionMessage) (peer : Session) : Session :=
  { readVersion turn message peer with verackSent := true }.wrote [⟨.verack, []⟩]

theorem version {payload : Bytes} {message : VersionMessage}
    (decoded : decode deserializeVersion payload = some (some message))
    (unread : peer.versionReceived = false) (sent : peer.versionSent = true)
    (silent : peer.verackSent = false)
    (foreign : peer.inbound = true →
      (turns server.turn).isOwnAddress peer.address.sinAddr = false) :
    Open place node branches (greeted (turns server.turn) message peer)
      (server.deliver host turns place ⟨.version, payload⟩) := by
  have read : Open place node branches (readVersion (turns server.turn) message peer)
      (server.update place (readVersion (turns server.turn) message)) :=
    is.update rfl is.opened is.steady is.calm
  have answered : acknowledge (readVersion (turns server.turn) message peer) =
      greeted (turns server.turn) message peer := by
    refine Session.send_open ?_ ?_ _ _
    · exact is.opened
    · exact is.steady
  have acknowledged := read.update answered is.opened is.steady is.calm
  have own : (peer.inbound && (turns server.turn).isOwnAddress peer.address.sinAddr) = false := by
    cases inbound : peer.inbound with
    | false => rfl
    | true => exact foreign inbound
  refine is.deliver ⟨by decide, by decide⟩ ?_
  unfold handle
  rw [is.there]
  dsimp only
  rw [handleVersion, unread, if_neg Bool.false_ne_true, decoded]
  dsimp only
  rw [own, if_neg Bool.false_ne_true, sendVerack_eq read.there silent read.opened]
  split
  · rw [sendVersion_sent _ acknowledged.there sent]
    exact acknowledged
  · exact acknowledged

omit is in
/-- The request for the headers above the own chain. -/
def headersRequest (storage : Storage) : Message :=
  ⟨.getheaders, serializeGetHeaders storage.getBlockLocatorHashes Digest.zero⟩

/-- The answer to a verack: perhaps addresses, and a request when the peer is higher. -/
theorem verack (unreceived : peer.verackReceived = false)
    (incomplete : peer.handshakeComplete = false) (payload : Bytes) :
    ∃ noise : List Message, (∀ message ∈ noise, message.type = .addr) ∧
      Open place node branches ((completeHandshake peer).wrote (noise ++
          if peer.startHeight.toNat > node.storage.bestHeight then [headersRequest node.storage]
          else []))
        (server.deliver host turns place ⟨.verack, payload⟩) := by
  let turn := turns server.turn
  have completed : Open place node branches (completeHandshake peer)
      (server.update place completeHandshake) :=
    is.update rfl is.opened is.steady is.calm
  obtain ⟨first, firstAddr, firstSent⟩ := completed.sendAddr_eq
    ((server.update place completeHandshake).known turn.now 1000)
  have told := completed.update firstSent is.opened is.steady is.calm
  obtain ⟨second, secondAddr, secondSent⟩ := told.sendAddr_eq
    (((server.update place completeHandshake).update place (P2PServer.sendAddr
      ((server.update place completeHandshake).known turn.now 1000))).known turn.now 1000)
  have exchanged : Open place node branches ((completeHandshake peer).wrote (first ++ second))
      (exchangeAddresses turn ((server.update place completeHandshake).update place
        (P2PServer.sendAddr ((server.update place completeHandshake).known turn.now 1000)))) := by
    have same := Session.wrote_wrote (completeHandshake peer) first second
    rw [← same]
    refine told.wrote second ?_ rfl rfl rfl
    rw [exchangeAddresses, List.getElem?_map, told.there, Option.map_some]
    have chosen : ((completeHandshake peer).wrote first).handshakeComplete &&
        ((completeHandshake peer).wrote first).closed.isNone := by
      rw [told.opened]
      rfl
    rw [if_pos chosen, secondSent]
  refine ⟨first ++ second, ?_, is.deliver (by decide) ?_⟩
  · intro message member
    rcases List.mem_append.mp member with here | there
    · exact firstAddr message here
    · exact secondAddr message there
  unfold handle
  rw [is.there]
  dsimp only
  rw [handleVerack, unreceived, incomplete, Bool.or_self, if_neg Bool.false_ne_true]
  dsimp only
  rw [exchanged.dialDirectoryPeers_eq, exchanged.bestHeight]
  split
  · rw [← Session.wrote_wrote, askHeaders, exchanged.node_eq]
    exact exchanged.send _ _
  · rw [List.append_nil]
    exact exchanged

/-- Addresses from the peer change nothing that it could see. -/
theorem addr (payload : Bytes) :
    Open place node branches peer (server.deliver host turns place ⟨.addr, payload⟩) := by
  refine is.deliver (by decide) ?_
  unfold handle
  rw [is.there]
  dsimp only
  unfold handleAddr
  split
  next addrs _ =>
    have filled : Open place node branches peer { server with
        addrman := addrs.foldl (fun book addr =>
          ((book.add (turns server.turn).now addr).map Prod.snd).getD book) server.addrman } :=
      { is with }
    rw [filled.dialDirectoryPeers_eq]
    exact filled
  · exact is

/-! ## Serving a peer -/

/-- The answer to a request for headers. -/
theorem getheaders {locatorHashes : List Digest} (few : locatorHashes.length ≤ 500)
    {headers : List BlockHeader}
    (found : PiSecure.handleGetHeaders node.storage locatorHashes Digest.zero = headers) :
    Open place node branches
      (peer.wrote (if headers.isEmpty then [] else [⟨.headers, serializeHeaders headers⟩]))
      (server.deliver host turns place
        ⟨.getheaders, serializeGetHeaders locatorHashes Digest.zero⟩) := by
  refine is.deliver (by decide) ?_
  unfold handle
  rw [is.there]
  dsimp only
  rw [handleGetHeaders, deserializeGetHeaders_serializeGetHeaders few]
  dsimp only
  rw [Option.getD_some, is.node_eq, found]
  split
  · rw [Session.wrote_nil]
    exact is
  · exact is.send _ _

/-- The messages of a list, one after the other. -/
theorem sends (messages : List Message) : Open place node branches (peer.wrote messages)
    (messages.foldl (fun server message => server.send place message.type message.payload)
      server) := by
  induction messages generalizing server peer with
  | nil => rwa [Session.wrote_nil]
  | cons message rest ih =>
      have later := ih (is.send message.type message.payload)
      rwa [Session.wrote_wrote] at later

/-- The answer to a request for items. -/
theorem getdata {invs : List InvVect} (few : invs.length ≤ MAX_INV_SIZE) :
    Open place node branches (peer.wrote (invs.filterMap (served node.storage)))
      (server.deliver host turns place ⟨.getdata, serializeInv invs⟩) := by
  refine is.deliver (by decide) ?_
  unfold handle
  rw [is.there]
  dsimp only
  rw [handleGetData, deserializeInv_serializeInv few]
  dsimp only
  rw [is.node_eq]
  exact is.sends _

/-- A block that is stored is not asked for again. -/
theorem inv_stored {hash : Digest} (stored : (node.storage.blockIndex hash).isSome) :
    Open place node branches peer (server.deliver host turns place
      ⟨.inv, serializeInv [⟨InvType.block.toUInt32, hash⟩]⟩) := by
  have known : newInventory node.storage [⟨InvType.block.toUInt32, hash⟩] peer.knownInv =
      ([], peer.knownInv) := by
    have has : hasBlock node.storage ⟨InvType.block.toUInt32, hash⟩ = true := by
      rw [hasBlock, stored]
      rfl
    rw [newInventory, if_pos (.inl has), newInventory]
  have few : ([⟨InvType.block.toUInt32, hash⟩] : List InvVect).length ≤ MAX_INV_SIZE :=
    (by decide : 1 ≤ MAX_INV_SIZE)
  refine is.deliver (by decide) ?_
  unfold handle
  rw [is.there]
  dsimp only
  rw [handleInv, deserializeInv_serializeInv few]
  dsimp only
  rw [is.node_eq, known, List.isEmpty_nil, if_pos rfl]
  exact is.update rfl is.opened is.steady is.calm

end Open

/-! ## Blocks from a peer -/

/-- A submission that is refused connects nothing. -/
theorem connection_refused {moment : Moment} {next : Node} {refusal : Refusal} {body : Json}
    (refused : rpcSubmitblock host moment false node body = (next, .refused refusal)) :
    PiSecure.connection host moment false node body = [] := by
  unfold PiSecure.connection
  cases passed : acceptance host moment false node body with
  | none => rfl
  | some accepted =>
      rw [rpcSubmitblock_of_some passed] at refused
      split at refused
      · cases refused
      · cases refused

theorem handleJsonBlock_refused {next : Node} {reason : String} {body : Json}
    (refused : rpcSubmitblock host (turn.moments 0) false server.node body =
      (next, .refused (.reason reason))) :
    server.handleJsonBlock host turn place peer body =
      { server with node := next }.rejectedBlock host turn place peer body reason := by
  rw [handleJsonBlock, refused, connection_refused refused]
  rfl

/-- A document that passes as the payload of a block message. -/
structure Sendable (host : Host) (body : Json) : Prop where
  isObject : body.isObject = true
  parses : host.parse body.dump.bytes = some body
  short : body.dumpSize ≤ kMaxBlockBytes

variable {body : Json}

theorem Sendable.handleBlock_eq (sendable : Sendable host body) :
    server.handleBlock host turn place peer body.dump.bytes =
      server.handleJsonBlock host turn place peer body := by
  have json : isJsonBody body.dump.bytes = true := by
    have isObject := sendable.isObject
    cases body with
    | object members =>
        rw [Json.dump]
        rfl
    | _ => cases isObject
  have short : ¬body.dump.bytes.length > kMaxBlockBytes := by
    rw [Text.length_bytes]
    exact Nat.not_lt.mpr sendable.short
  rw [handleBlock, if_pos json, if_neg short, sendable.parses]

theorem bytes_nonempty (isObject : body.isObject = true) : body.dump.bytes.isEmpty = false := by
  cases body with
  | object members =>
      rw [Json.dump]
      rfl
  | _ => cases isObject

theorem sendToAll_there (there : server.peers[place]? = some peer) (opened : peer.closed = none)
    (steady : peer.shortWrite = none) (complete : peer.handshakeComplete = true)
    (type : P2PMsgType) (payload : Bytes) :
    (server.sendToAll type payload).peers[place]? = some (peer.wrote [⟨type, payload⟩]) := by
  rw [P2PServer.sendToAll, List.getElem?_map, there, Option.map_some, if_pos complete,
    Session.send_open opened steady]
  rfl

/-- What is sent when a block joins the node. -/
def blockGossip (accepted : Accepted host) : List Message :=
  [⟨.inv, serializeInv [⟨InvType.block.toUInt32, accepted.hash⟩]⟩,
    ⟨.block, accepted.stored.dump.bytes⟩]

/-- The gossip of a block reaches a peer whose handshake is complete. -/
theorem gossipBlock_there (server : P2PServer) (there : server.peers[place]? = some peer)
    (opened : peer.closed = none)
    (steady : peer.shortWrite = none) (complete : peer.handshakeComplete = true) {raw : Bytes}
    (nonempty : raw.isEmpty = false) (hash : Digest) :
    (server.gossipBlock raw hash).peers[place]? =
        some (peer.wrote [⟨.inv, serializeInv [⟨InvType.block.toUInt32, hash⟩]⟩, ⟨.block, raw⟩]) ∧
      (server.gossipBlock raw hash).node = server.node ∧
      (server.gossipBlock raw hash).branches = server.branches := by
  have refreshed : server.refreshHeight.peers[place]? = some peer := by
    rw [refreshHeight_peers, there]
  have announced := sendToAll_there refreshed opened steady complete .inv
    (serializeInv [⟨InvType.block.toUInt32, hash⟩])
  have sent := sendToAll_there announced opened steady complete .block raw
  have kept : server.refreshHeight.node = server.node ∧
      server.refreshHeight.branches = server.branches := by
    unfold refreshHeight
    split
    · exact ⟨rfl, rfl⟩
    · exact ⟨rfl, rfl⟩
  rw [Session.wrote_wrote] at sent
  unfold gossipBlock
  dsimp only
  rw [nonempty, if_neg Bool.false_ne_true]
  exact ⟨sent, kept.1, kept.2⟩

/-- Without a branch to adopt, only the held blocks on the active chain are dropped. -/
theorem adoptLater_idle {moments : Nat → Moment}
    (unchosen : bestCandidate server.node.storage server.branches.heldBlocks
      server.branches.refusedTips turn.now = none) :
    server.adoptLater host turn moments = { server with
      branches := { server.branches with
        heldBlocks := dropCanonical (canonicalHashes server.node.storage)
          server.branches.heldBlocks } } := by
  have outcome : adoptLaterPeerChain host turn.now moments server.branches server.node =
      ({ server.branches with
        heldBlocks := dropCanonical (canonicalHashes server.node.storage)
          server.branches.heldBlocks }, server.node) := by
    rw [adoptLaterPeerChain, unchosen]
  have nothing : server.adopted host turn moments = [] := by
    rw [adopted, unchosen]
  rw [adoptLater, outcome, nothing]
  rfl

/-- A block that is new and passes joins the node, and is announced to everyone. -/
theorem handleBlock_accepted (sendable : Sendable host body) {accepted : Accepted host}
    (passed : acceptance host (turn.moments 0) false server.node body = some accepted)
    (unstored : server.node.storage.blockIndex accepted.hash = none) :
    server.handleBlock host turn place peer body.dump.bytes =
      { gossipBlock { server with
            node := connectBlock host (turn.moments 0) false
              { server.node with names := accepted.names } accepted.checked }
          accepted.stored.dump.bytes accepted.hash with
        bestHeight := (gossipBlock { server with
            node := connectBlock host (turn.moments 0) false
              { server.node with names := accepted.names } accepted.checked }
          accepted.stored.dump.bytes accepted.hash).node.storage.bestHeight } := by
  have connected : PiSecure.connection host (turn.moments 0) false server.node body =
      [accepted] := by
    unfold PiSecure.connection
    rw [passed]
    simp only [unstored, Option.isSome_none, Bool.false_eq_true, ↓reduceIte]
  have submitted : rpcSubmitblock host (turn.moments 0) false server.node body =
      (connectBlock host (turn.moments 0) false { server.node with names := accepted.names }
        accepted.checked, .accepted accepted.hash accepted.height false) := by
    rw [rpcSubmitblock_of_some passed, unstored]
  rw [sendable.handleBlock_eq, handleJsonBlock, submitted, connected]
  rfl

/-- A block of the active chain that is off the tip is held and forgotten. -/
theorem handleBlock_stale (fresh : server.refreshHeight = server)
    (idle : server.branches.heldBlocks = []) (sendable : Sendable host body) {text : Text}
    (named : body.text? "hash" = some text)
    (refused : ∀ moment, rpcSubmitblock host moment false server.node body =
      (server.node, .refused (.reason "prev hash does not link tip")))
    (forgotten : dropCanonical (canonicalHashes server.node.storage) (noteOffTipBlock [] body) = [])
    (low : peer.startHeight.toNat ≤ server.bestHeight) :
    server.handleBlock host turn place peer body.dump.bytes = server := by
  have hashed : (body.valueOr "hash" Json.asText? []).isNone = false := by
    obtain ⟨value, found, isText⟩ := Option.bind_eq_some_iff.mp named
    rw [Json.valueOr_of_get? found, isText]
    rfl
  have off : offTip "prev hash does not link tip" = true := by decide +kernel
  have unheld : ({ server.branches with heldBlocks := [] } : Branches) = server.branches := by
    rw [← idle]
  have kept : ∀ moments : Nat → Moment, ({ server with
      branches := { server.branches with heldBlocks := noteOffTipBlock [] body } } :
        P2PServer).adoptLater host turn moments = server := by
    intro moments
    rw [adoptLater_idle (bestCandidate_none forgotten _ _)]
    dsimp only
    rw [forgotten, unheld]
  rw [sendable.handleBlock_eq, handleJsonBlock_refused (refused _), rejectedBlock, hashed,
    if_neg Bool.false_ne_true, if_pos off]
  dsimp only
  rw [idle, kept, fresh, if_neg (Nat.not_lt.mpr low)]

/-! ## Catching up -/

/-- What a request for all blocks of some headers names. -/
def blockItems (headers : List BlockHeader) : List InvVect :=
  headers.map fun header => ⟨InvType.block.toUInt32, header.hash⟩

/-- Headers as they are read are as linked as they were sent. -/
theorem linked_sent {before : BlockHeader} {rest : List BlockHeader}
    (follows : (before :: rest).IsChain fun before after => after.prevBlockHash = before.hash) :
    checkHeaders.linked before.sent (rest.map BlockHeader.sent) = true := by
  induction rest generalizing before with
  | nil => rfl
  | cons after rest ih =>
      obtain ⟨link, later⟩ := List.isChain_cons_cons.mp follows
      rw [List.map_cons, checkHeaders.linked, ih later, Bool.and_true]
      exact decide_eq_true link

/-- Headers that follow each other from a known one, of blocks that are not stored, have all
their blocks requested. -/
theorem checkHeaders_sent {storage : Storage} {first : BlockHeader} {rest : List BlockHeader}
    (rooted : first.prevBlockHash = Digest.zero ∨
      (storage.getHeaderByHash first.prevBlockHash).isSome)
    (follows : (first :: rest).IsChain fun before after => after.prevBlockHash = before.hash)
    (unstored : ∀ header ∈ first :: rest, storage.blockIndex header.hash = none) :
    checkHeaders storage ((first :: rest).map BlockHeader.sent) =
      .request (blockItems (first :: rest)) := by
  have connected : ¬(first.sent.prevBlockHash ≠ Digest.zero ∧
      (storage.getHeaderByHash first.sent.prevBlockHash).isNone) := by
    rintro ⟨child, unknown⟩
    rcases rooted with root | known
    · exact child root
    · exact absurd unknown (by
        change ¬(storage.getHeaderByHash first.prevBlockHash).isNone = true
        rw [Option.isNone_iff_eq_none]
        exact Option.isSome_iff_ne_none.mp known)
  have all : missing storage ((first :: rest).map BlockHeader.sent) =
      blockItems (first :: rest) := by
    rw [missing, List.filter_eq_self.mpr]
    · rw [List.map_map]
      rfl
    · intro header member
      obtain ⟨own, listed, rfl⟩ := List.mem_map.mp member
      exact Option.isNone_iff_eq_none.mpr (unstored own listed)
  rw [List.map_cons, checkHeaders, if_neg connected, linked_sent follows, if_pos rfl]
  exact congrArg HeadersOutcome.request all

/-- The answer to headers of blocks to request: that request, and one for more headers when
there may be more. -/
def headersAnswer (headers : List BlockHeader) : List Message :=
  ⟨.getdata, serializeInv (blockItems headers)⟩ ::
    if headers.length = 2000 then
      [⟨.getheaders, serializeGetHeaders (headers.getLast?.map BlockHeader.hash).toList
        Digest.zero⟩]
    else []

namespace Open

/-- A block of the active chain that is off the tip is not answered. -/
theorem stale {refusedTips : List Text} (is : Open place node ⟨[], refusedTips⟩ peer server)
    (sendable : Sendable host body) {text : Text} (named : body.text? "hash" = some text)
    (refused : ∀ moment, rpcSubmitblock host moment false node body =
      (node, .refused (.reason "prev hash does not link tip")))
    (forgotten : dropCanonical (canonicalHashes node.storage) (noteOffTipBlock [] body) = [])
    (low : peer.startHeight.toNat ≤ node.storage.bestHeight) :
    Open place node ⟨[], refusedTips⟩ peer
      (server.deliver host turns place ⟨.block, body.dump.bytes⟩) := by
  refine is.deliver (by decide) ?_
  unfold handle
  rw [is.there]
  dsimp only
  rw [handleBlock_stale is.refreshHeight_eq (congrArg Branches.heldBlocks is.branches_eq) sendable
    named (is.node_eq ▸ refused) (is.node_eq ▸ forgotten) (is.bestHeight ▸ low)]
  exact is

variable (is : Open place node branches peer server)
include is

theorem headers {first : BlockHeader} {rest : List BlockHeader}
    (few : (first :: rest).length ≤ 2000)
    (rooted : first.prevBlockHash = Digest.zero ∨
      (node.storage.getHeaderByHash first.prevBlockHash).isSome)
    (follows : (first :: rest).IsChain fun before after => after.prevBlockHash = before.hash)
    (unstored : ∀ header ∈ first :: rest, node.storage.blockIndex header.hash = none) :
    Open place node branches (peer.wrote (headersAnswer (first :: rest)))
      (server.deliver host turns place ⟨.headers, serializeHeaders (first :: rest)⟩) := by
  have requested := is.send .getdata (serializeInv (blockItems (first :: rest)))
  refine is.deliver (by decide) ?_
  unfold handle
  rw [is.there]
  dsimp only
  rw [handleHeaders, deserializeHeaders_serializeHeaders (List.cons_ne_nil _ _) few]
  dsimp only
  have last : ((first :: rest).map BlockHeader.sent).getLast?.map BlockHeader.hash =
      (first :: rest).getLast?.map BlockHeader.hash := by
    rw [List.getLast?_map, Option.map_map]
    rfl
  rw [if_neg (not_not.mpr rfl), is.node_eq, checkHeaders_sent rooted follows unstored]
  dsimp only
  rw [if_neg (show ¬(blockItems (first :: rest)).isEmpty = true from Bool.false_ne_true),
    List.length_map, last, headersAnswer]
  split
  · have both := requested.send .getheaders
      (serializeGetHeaders ((first :: rest).getLast?.map BlockHeader.hash).toList Digest.zero)
    rwa [Session.wrote_wrote] at both
  · exact requested

/-- A block that is new and passes joins the node, and is announced to the peer. -/
theorem block (complete : peer.handshakeComplete = true) {body : Json}
    (sendable : Sendable host body) {accepted : Accepted host}
    (passed : acceptance host ((turns server.turn).moments 0) false node body = some accepted)
    (unstored : node.storage.blockIndex accepted.hash = none) :
    Open place (connectBlock host ((turns server.turn).moments 0) false
        { node with names := accepted.names } accepted.checked) branches
      (peer.wrote (blockGossip accepted))
      (server.deliver host turns place ⟨.block, body.dump.bytes⟩) := by
  have nonempty : accepted.stored.dump.bytes.isEmpty = false :=
    bytes_nonempty accepted.stored_isObject
  have handled := @handleBlock_accepted _ _ place _ peer _ sendable _
    (is.node_eq.symm ▸ passed) (is.node_eq.symm ▸ unstored)
  rw [is.node_eq] at handled
  generalize connectBlock host ((turns server.turn).moments 0) false
    { node with names := accepted.names } accepted.checked = next at handled ⊢
  obtain ⟨there, node_eq, branches_eq⟩ := gossipBlock_there { server with node := next }
    is.there is.opened is.steady complete nonempty accepted.hash
  refine is.deliver (by decide) ?_
  unfold handle
  rw [is.there]
  dsimp only
  rw [handled]
  exact ⟨node_eq, branches_eq.trans is.branches_eq, congrArg (·.storage.bestHeight) node_eq, there,
    is.opened, is.steady, is.calm⟩

end Open

end P2PServer

end PiSecure
