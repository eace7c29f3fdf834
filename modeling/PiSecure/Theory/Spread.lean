import PiSecure.General.Network
import PiSecure.Theory.CatchUp
import PiSecure.Theory.Relay

/-! # A block in a network

Servers on equal chains, connected over sessions whose handshakes are complete. A block that
one of them accepts from a miner is announced and sent on, and in whatever order the messages
are delivered each server behind it has the block as its tip once nothing is on its way.
-/

namespace PiSecure

variable {host : Host}

/-! ## A node that has the block -/

/-- A node with the block on its tip, as it hands it out. -/
structure Accepted.Joined (accepted : Accepted host) (node : Node) : Prop where
  path : ∃ chain, Path node.storage.chainIndex (chain ++ [accepted.header]) ∧
    ∀ header ∈ chain ++ [accepted.header], header.hash ≠ Digest.zero
  served : P2PServer.served node.storage ⟨InvType.block.toUInt32, accepted.hash⟩ =
    some ⟨.block, accepted.stored.dump.bytes⟩

/-- A node that can take the block from a peer. -/
structure Accepted.Waits (accepted : Accepted host) (node : Node) : Prop where
  beside : accepted.Beside node
  path : ∃ chain, Path node.storage.chainIndex chain ∧ ∀ header ∈ chain, header.hash ≠ Digest.zero
  unstored : node.storage.blockIndex accepted.hash = none

namespace Accepted

variable {accepted again : Accepted host} {node : Node}

/-- What a node reads back of a block that it has connected. -/
theorem connected_served (moment : Moment) (localPolicy : Bool) (node : Node)
    (accepted : Accepted host) :
    P2PServer.served (connectBlock host moment localPolicy { node with names := accepted.names }
        accepted.checked).storage ⟨InvType.block.toUInt32, accepted.hash⟩ =
      some ⟨.block, accepted.stored.dump.bytes⟩ := by
  obtain ⟨_, _, _, _, connected⟩ :=
    connectBlock_eq host moment localPolicy { node with names := accepted.names } accepted.checked
  have found : (node.storage.hashToIndex.insert accepted.hash node.storage.frames.length).lookup
      accepted.hash = some node.storage.frames.length := Finmap.lookup_insert _
  have framed : (node.storage.frames ++
      [Payload.doc accepted.stored])[node.storage.frames.length]? =
      some (.doc accepted.stored) := List.getElem?_concat_length
  rw [connected, P2PServer.served, if_pos rfl]
  change (((node.storage.hashToIndex.insert accepted.hash node.storage.frames.length).lookup
    accepted.hash).bind fun index =>
      (node.storage.frames ++ [Payload.doc accepted.stored])[index]?.map Payload.bytes).map _ = _
  rw [found, Option.bind_some, framed]
  rfl

/-- A node that connects the block from its own tip has joined. -/
theorem Joined.of_connect (waits : accepted.Waits node) {moment : Moment} {localPolicy : Bool}
    {params : Json} (passed : acceptance host moment localPolicy node params = some again)
    (hash : again.hash = accepted.hash) (header : again.header = accepted.header)
    (stored : again.stored = accepted.stored) (proper : accepted.hash ≠ Digest.zero) :
    accepted.Joined (connectBlock host moment localPolicy { node with names := again.names }
      again.checked) := by
  obtain ⟨chain, path, others⟩ := waits.path
  refine ⟨⟨chain, ?_, ?_⟩, ?_⟩
  · rw [← header]
    exact path.connect passed (hash ▸ waits.unstored)
  · intro other member
    rcases List.mem_append.mp member with older | last
    · exact others other older
    · rw [List.mem_singleton.mp last]
      exact proper
  · rw [← hash, ← stored]
    exact connected_served moment localPolicy node again

namespace Joined

variable (joined : accepted.Joined node)
include joined

theorem stored : (node.storage.blockIndex accepted.hash).isSome := by
  obtain ⟨chain, path, _⟩ := joined.path
  exact Finmap.lookup_isSome.mpr
    (path.stored accepted.header (List.mem_append_right chain (List.mem_singleton_self _)))

theorem bestHeight : node.storage.bestHeight = accepted.height := by
  obtain ⟨chain, path, _⟩ := joined.path
  have length := path.bestHeight
  have last := (path.links chain.length accepted.header List.getElem?_concat_length).1
  rw [List.length_append, List.length_singleton, ← last] at length
  exact length

theorem bestBlockHash : node.storage.bestBlockHash = accepted.hash := by
  obtain ⟨chain, path, _⟩ := joined.path
  have tip := path.bestHash
  rw [indexRows, List.length_append, List.length_singleton, List.getElem?_cons_succ,
    List.map_append, ← List.length_map BlockHeader.hash] at tip
  exact (Option.some.inj (List.getElem?_concat_length.symm.trans tip)).symm

/-- The parent of the block is not its tip. -/
theorem expectPrev_ne : expectPrev node.storage ≠ accepted.prev := by
  obtain ⟨chain, path, proper⟩ := joined.path
  have parent := (path.links chain.length accepted.header List.getElem?_concat_length).2
  have tip := path.bestHash
  rw [List.length_append, List.length_singleton, path.tip, Storage.tip_chainIndex] at tip
  intro same
  rw [same] at tip
  have places := (List.getElem?_inj (List.getElem?_eq_some_iff.mp tip).1
    (path.rows_nodup proper)).mp (tip.trans parent.symm)
  omega

theorem refused (moment : Moment) : rpcSubmitblock host moment false node accepted.stored =
    (node, .refused (.reason "prev hash does not link tip")) :=
  accepted.stored_refused joined.expectPrev_ne moment

theorem forgotten : dropCanonical (canonicalHashes node.storage)
    (noteOffTipBlock [] accepted.stored) = [] := by
  obtain ⟨chain, path, proper⟩ := joined.path
  refine dropCanonical_note path ?_ proper ?_ (accepted.stored_text? "hash" _ rfl)
  · rw [List.length_append]
    exact Nat.succ_pos _
  · rw [List.map_append]
    exact List.mem_append_right _ (List.mem_singleton_self _)

theorem hasTip : node.storage.hasTip = true := by
  obtain ⟨chain, path, _⟩ := joined.path
  have rows : node.storage.heightToHash = indexRows (chain ++ [accepted.header]) := by
    refine path.rows ?_
    rw [List.length_append]
    exact Nat.succ_pos _
  rw [Storage.hasTip, rows]
  rfl

end Joined

/-- The announcement of the block. -/
def announcement (accepted : Accepted host) : Message :=
  ⟨.inv, serializeInv [⟨InvType.block.toUInt32, accepted.hash⟩]⟩

/-- A request for the block. -/
def request (accepted : Accepted host) : Message :=
  ⟨.getdata, serializeGetData [⟨InvType.block.toUInt32, accepted.hash⟩]⟩

/-- The block itself. -/
def body (accepted : Accepted host) : Message := ⟨.block, accepted.stored.dump.bytes⟩

end Accepted

/-! ## What the messages do -/

/-- An open session whose handshake is complete, with a peer that is not above a height. -/
structure Session.Ready (height : Nat) (peer : Session) : Prop where
  opened : peer.closed = none
  steady : peer.shortWrite = none
  calm : peer.shouldBan = false
  complete : peer.handshakeComplete = true
  low : peer.startHeight.toNat ≤ height

theorem Session.Ready.wrote {height : Nat} {peer : Session} (ready : peer.Ready height)
    (messages : List Message) : (peer.wrote messages).Ready height := { ready with }

namespace P2PServer

/-- A server that knows its height, holds no blocks and has only sessions that are ready. -/
structure Idle (height : Nat) (server : P2PServer) : Prop where
  idle : server.branches.heldBlocks = []
  bestHeight : server.bestHeight = server.node.storage.bestHeight
  ready : ∀ peer ∈ server.peers, peer.Ready height

variable {turn : Turn} {turns : Nat → Turn} {place height : Nat} {server : P2PServer}
  {peer : Session} {accepted : Accepted host} {message : Message} {replies : List Message}

/-- The server with another session at a place. -/
def put (server : P2PServer) (place : Nat) (after : Session) : P2PServer :=
  server.update place fun _ => after

/-- A handler answers on the session that it is for, which may note an item. -/
def Replies (host : Host) (turn : Turn) (server : P2PServer) (place : Nat) (peer : Session)
    (message : Message) (replies : List Message) : Prop :=
  ∃ knownInv, server.handle host turn place message =
    server.put place { peer.wrote replies with knownInv := knownInv }

theorem update_eq_put (there : server.peers[place]? = some peer) (change : Session → Session) :
    server.update place change = server.put place (change peer) := by
  refine congrArg (fun peers => { server with peers := peers }) (List.ext_getElem? fun other => ?_)
  rw [List.getElem?_modify, List.getElem?_modify]
  split
  next here =>
    rw [← here, there]
    rfl
  · rfl

/-- Nothing happens. -/
theorem Replies.none (there : server.peers[place]? = some peer)
    (same : server.handle host turn place message = server) :
    Replies host turn server place peer message [] := by
  refine ⟨peer.knownInv, same.trans (update_same there ?_).symm⟩
  rw [Session.wrote_nil]

/-- An announcement may be answered by a request. -/
theorem announcement_replies (there : server.peers[place]? = some peer)
    (ready : peer.Ready height) (accepted : Accepted host) :
    Replies host turn server place peer accepted.announcement [] ∨
      Replies host turn server place peer accepted.announcement [accepted.request] := by
  let inv : InvVect := ⟨InvType.block.toUInt32, accepted.hash⟩
  have few : [inv].length ≤ MAX_INV_SIZE := (by decide : 1 ≤ MAX_INV_SIZE)
  have handled : server.handle host turn place accepted.announcement =
      server.handleInv place peer (serializeInv [inv]) := by
    unfold handle
    rw [there]
    rfl
  rw [handleInv, deserializeInv_serializeInv few] at handled
  dsimp only at handled
  by_cases known : hasBlock server.node.storage inv ∨ inv ∈ peer.knownInv
  · have nothing : newInventory server.node.storage [inv] peer.knownInv = ([], peer.knownInv) := by
      rw [newInventory, if_pos known, newInventory]
    rw [nothing, List.isEmpty_nil, if_pos rfl] at handled
    exact .inl (.none there (handled.trans (update_same there rfl)))
  · have asked : newInventory server.node.storage [inv] peer.knownInv =
        ([inv], insert inv peer.knownInv) := by
      rw [newInventory, if_neg known, newInventory]
    rw [asked, List.isEmpty_cons, if_neg Bool.false_ne_true, send, update_update,
      update_eq_put there] at handled
    refine .inr ⟨insert inv peer.knownInv, handled.trans (congrArg (server.put place) ?_)⟩
    exact @Session.send_open { peer with knownInv := insert inv peer.knownInv } ready.opened
      ready.steady _ _

/-- A request is answered by what is served. -/
theorem request_replies (there : server.peers[place]? = some peer) (ready : peer.Ready height)
    (accepted : Accepted host) :
    Replies host turn server place peer accepted.request
      (served server.node.storage ⟨InvType.block.toUInt32, accepted.hash⟩).toList := by
  let inv : InvVect := ⟨InvType.block.toUInt32, accepted.hash⟩
  have few : [inv].length ≤ MAX_INV_SIZE := (by decide : 1 ≤ MAX_INV_SIZE)
  have handled : server.handle host turn place accepted.request =
      server.handleGetData place (serializeInv [inv]) := by
    unfold handle
    rw [there]
    rfl
  rw [handleGetData, deserializeInv_serializeInv few] at handled
  dsimp only at handled
  cases found : served server.node.storage inv with
  | none =>
      rw [List.filterMap_cons_none found, List.filterMap_nil] at handled
      exact .none there handled
  | some answer =>
      rw [List.filterMap_cons_some found, List.filterMap_nil, List.foldl_cons, List.foldl_nil, send,
        update_eq_put there, Session.send_open ready.opened ready.steady] at handled
      exact ⟨peer.knownInv, handled⟩

/-- A block that is there is not answered. -/
theorem body_replies (there : server.peers[place]? = some peer) (calm : server.Idle accepted.height)
    (joined : accepted.Joined server.node) (sendable : Sendable host accepted.stored) :
    Replies host turn server place peer accepted.body [] := by
  refine .none there ?_
  unfold handle
  rw [there]
  have low : peer.startHeight.toNat ≤ server.bestHeight := by
    rw [calm.bestHeight, joined.bestHeight]
    exact (calm.ready peer (List.mem_of_getElem? there)).low
  exact handleBlock_stale (refreshHeight_of_height calm.bestHeight) calm.idle sendable
    (accepted.stored_text? "hash" _ rfl) joined.refused joined.forgotten low

/-! ### A block that is new -/

/-- The server with more messages written to everyone. -/
def tell (server : P2PServer) (messages : List Message) : P2PServer :=
  { server with peers := server.peers.map (Session.wrote messages) }

theorem sendToAll_ready (ready : ∀ peer ∈ server.peers, peer.Ready height) (type : P2PMsgType)
    (payload : Bytes) : server.sendToAll type payload = server.tell [⟨type, payload⟩] := by
  refine congrArg (fun peers => { server with peers := peers }) (List.map_congr_left ?_)
  intro peer member
  have is := ready peer member
  rw [if_pos is.complete]
  exact Session.send_open is.opened is.steady type payload

theorem gossipBlock_ready (ready : ∀ peer ∈ server.peers, peer.Ready height) {raw : Bytes}
    (nonempty : raw.isEmpty = false) (hash : Digest) :
    server.gossipBlock raw hash = server.refreshHeight.tell
      [⟨.inv, serializeInv [⟨InvType.block.toUInt32, hash⟩]⟩, ⟨.block, raw⟩] := by
  have refreshed : ∀ peer ∈ server.refreshHeight.peers, peer.Ready height := by
    rwa [refreshHeight_peers]
  have announced : ∀ peer ∈ (server.refreshHeight.tell
      [⟨.inv, serializeInv [⟨InvType.block.toUInt32, hash⟩]⟩]).peers, peer.Ready height := by
    intro peer member
    obtain ⟨before, listed, rfl⟩ := List.mem_map.mp member
    exact (refreshed before listed).wrote _
  unfold gossipBlock broadcastInv
  dsimp only
  rw [nonempty, if_neg Bool.false_ne_true, sendToAll_ready refreshed]
  refine (sendToAll_ready announced _ _).trans ?_
  rw [tell, tell, List.map_map]
  refine congrArg (fun peers => { server.refreshHeight with peers := peers }) ?_
  exact List.map_congr_left fun peer _ => Session.wrote_wrote peer _ _

/-- A block that the server waits for joins it, and is told to everyone. -/
theorem body_learned (there : server.peers[place]? = some peer)
    (calm : server.Idle accepted.height) (waits : accepted.Waits server.node)
    (portable : accepted.Portable) (sendable : Sendable host accepted.stored)
    (inTime : accepted.checked.draft.fields.timestamp ≤ (turn.moments 0).now + 120)
    (proper : accepted.hash ≠ Digest.zero) :
    ∃ next, accepted.Joined next ∧ server.handle host turn place accepted.body =
      { server with node := next, bestHeight := next.storage.bestHeight }.tell
        (blockGossip accepted) := by
  obtain ⟨again, passed, hash, header, _, stored⟩ :=
    Accepted.relayed_block portable waits.beside inTime
  have joined := Accepted.Joined.of_connect waits passed hash header stored proper
  have nonempty : again.stored.dump.bytes.isEmpty = false := bytes_nonempty again.stored_isObject
  have handled := @handleBlock_accepted _ _ place _ peer _ sendable _ passed
    (hash.symm ▸ waits.unstored)
  generalize connectBlock host (turn.moments 0) false { server.node with names := again.names }
    again.checked = next at handled joined
  refine ⟨next, joined, ?_⟩
  unfold handle
  rw [there]
  refine Eq.trans handled ?_
  rw [@gossipBlock_ready accepted.height { server with node := next } calm.ready _ nonempty,
    refreshHeight, if_pos joined.hasTip, blockGossip, hash, stored]
  rfl

/-! ### After a message -/

/-- The server at the turn after a message. -/
theorem Replies.deliver
    (replied : Replies host (turns server.turn) server place peer message replies)
    (there : server.peers[place]? = some peer) (ready : peer.Ready height)
    (dispatched : message.type ≠ .reject ∧ message.type ≠ .getblocks) :
    ∃ after : Session, after.Ready height ∧ after.output = peer.output ++ replies ∧
      server.deliver host turns place message = (server.put place after).tick := by
  obtain ⟨knownInv, handled⟩ := replied
  let after : Session := { peer.wrote replies with knownInv := knownInv }
  have is : after.Ready height := { ready with }
  have answered : (server.handle host (turns server.turn) place message).peers[place]? =
      some after := by
    rw [handled]
    exact peers_update there _
  refine ⟨after, is, rfl, ?_⟩
  rw [deliver_eq there ready.opened dispatched answered is.opened is.calm, handled]
  rfl

theorem Idle.put (calm : server.Idle height) {after : Session} (ready : after.Ready height) :
    (server.put place after).tick.Idle height where
  idle := calm.idle
  bestHeight := calm.bestHeight
  ready := by
    intro peer member
    obtain ⟨other, listed⟩ := List.mem_iff_getElem?.mp member
    change (server.peers.modify place fun _ => after)[other]? = some peer at listed
    rw [List.getElem?_modify] at listed
    split at listed
    · obtain ⟨_, _, rfl⟩ := Option.map_eq_some_iff.mp listed
      exact ready
    · obtain ⟨before, old, rfl⟩ := Option.map_eq_some_iff.mp listed
      exact calm.ready before (List.mem_of_getElem? old)

theorem length_put (after : Session) :
    (server.put place after).tick.peers.length = server.peers.length := List.length_modify _ _ _

theorem written_put (there : server.peers[place]? = some peer) {after : Session}
    (output : after.output = peer.output ++ replies) :
    (server.put place after).tick.written place = server.written place ++ replies := by
  have put : (server.put place after).tick.peers[place]? = some after := peers_update there _
  rw [written_eq put, written_eq there, output]

theorem written_put_ne {other : Nat} (apart : other ≠ place) (after : Session) :
    (server.put place after).tick.written other = server.written other := by
  have kept : (server.put place after).tick.peers[other]? = server.peers[other]? :=
    List.getElem?_modify_ne _ _ (Ne.symm apart)
  rw [written, written, kept]

theorem Idle.tell (calm : server.Idle height) {node : Node} (messages : List Message) :
    (P2PServer.tell { server with node := node, bestHeight := node.storage.bestHeight }
      messages).tick.Idle height where
  idle := calm.idle
  bestHeight := rfl
  ready := by
    intro peer member
    obtain ⟨before, listed, rfl⟩ := List.mem_map.mp member
    exact (calm.ready before listed).wrote messages

theorem written_tell (messages : List Message) (inside : place < server.peers.length) :
    (server.tell messages).tick.written place = server.written place ++ messages := by
  have there := List.getElem?_eq_getElem inside
  have told : (server.tell messages).tick.peers[place]? =
      some ((server.peers[place]).wrote messages) := by
    change (server.peers.map (Session.wrote messages))[place]? = _
    rw [List.getElem?_map, there]
    rfl
  rw [written_eq told, written_eq there]
  rfl

end P2PServer

/-! ## The network -/

/-- Servers with their turns, and the links between their sessions. -/
structure Flood (Site Link : Type) where
  turns : Site → Nat → Turn
  servers : Site → P2PServer
  source : Link → Site
  outlet : Link → Nat
  target : Link → Site
  inlet : Link → Nat

namespace Flood

variable {Site Link : Type} (flood : Flood Site Link)

def network (host : Host) : Network Site P2PServer Nat Message Link where
  receive site server place message := server.deliver host (flood.turns site) place message
  sent := P2PServer.written
  sent_receive site server place message _ :=
    P2PServer.written_grows (server.deliver_touched host (flood.turns site) place message)
  source := flood.source
  outlet := flood.outlet
  target := flood.target
  inlet := flood.inlet

/-- The traffic after one server has taken a block from a miner, nothing else being on its
way. -/
def submitted [DecidableEq Site] (host : Host) (origin : Site) (localPolicy : Bool)
    (params : Json) : Traffic Site P2PServer Link :=
  { (flood.network host).quiet flood.servers with
    states := Function.update flood.servers origin
      ((flood.servers origin).tick.submitBlock host
        (flood.turns origin (flood.servers origin).turn) localPolicy params) }

/-- What a message about a block can lead to on its link: an announcement to a request, and
a request to the block. -/
def weight (message : Message) : Nat :=
  if message.type = .inv then 3 else if message.type = .getdata then 2 else 1

/-- The spreading of a block as that of a rumour. -/
def gossip (accepted : Accepted host) : Gossip Site P2PServer Message where
  Good site server := server.Idle accepted.height ∧
    server.peers.length = (flood.servers site).peers.length ∧
    (server.node = (flood.servers site).node ∨ accepted.Joined server.node)
  Informed server := accepted.Joined server.node
  Known message := message = accepted.announcement ∨ message = accepted.request ∨
    message = accepted.body
  Rumour message := message = accepted.body
  weight := weight
  cost := 4

/-- The servers can take the block that is submitted to one of them. -/
structure Prepared (host : Host) (accepted : Accepted host) (origin : Site) (localPolicy : Bool)
    (params : Json) : Prop where
  passed : acceptance host ((flood.turns origin (flood.servers origin).turn).moments 0) localPolicy
    (flood.servers origin).node params = some accepted
  proper : accepted.hash ≠ Digest.zero
  portable : accepted.Portable
  parses : host.parse accepted.stored.dump.bytes = some accepted.stored
  inTime : ∀ site number,
    accepted.checked.draft.fields.timestamp ≤ ((flood.turns site number).moments 0).now + 120
  waits : ∀ site, accepted.Waits (flood.servers site).node
  calm : ∀ site, (flood.servers site).Idle accepted.height
  distinct : ∀ first second, flood.source first = flood.source second →
    flood.outlet first = flood.outlet second → first = second
  outlets : ∀ link, flood.outlet link < (flood.servers (flood.source link)).peers.length
  inlets : ∀ link, flood.inlet link < (flood.servers (flood.target link)).peers.length

variable {flood} {accepted : Accepted host} {origin site : Site} {localPolicy : Bool}
  {params : Json} {place : Nat} {server : P2PServer} {peer : Session} {message : Message}
  {replies : List Message}

/-- A message that is answered on its session alone. -/
theorem answers (good : (flood.gossip accepted).Good site server)
    (there : server.peers[place]? = some peer)
    (replied : P2PServer.Replies host (flood.turns site server.turn) server place peer message
      replies)
    (dispatched : message.type ≠ .reject ∧ message.type ≠ .getblocks)
    (known : ∀ reply ∈ replies, (flood.gossip accepted).Known reply)
    (light : (flood.gossip accepted).load replies < (flood.gossip accepted).weight message)
    (heard : (flood.gossip accepted).Rumour message → accepted.Joined server.node) :
    (flood.gossip accepted).Answers (flood.network host) site server place message := by
  obtain ⟨calm, length, node⟩ := good
  obtain ⟨after, ready, output, delivered⟩ := replied.deliver there
    (calm.ready peer (List.mem_of_getElem? there)) dispatched
  have received : (flood.network host).receive site server place message =
      (server.put place after).tick := delivered
  constructor
  · rw [received]
    exact ⟨calm.put ready, (P2PServer.length_put after).trans length, node⟩
  · rw [received]
    exact Iff.rfl
  · exact heard
  · refine ⟨replies, known, light, ?_⟩
    rw [received]
    exact P2PServer.written_put there output
  · intro other apart
    rw [received]
    exact P2PServer.written_put_ne apart after

/-- The server that the miner calls, or that gets the block, tells everyone. -/
theorem Prepared.told (prepared : flood.Prepared host accepted origin localPolicy params)
    (length : server.peers.length = (flood.servers site).peers.length) (link : Link)
    (here : flood.source link = site) :
    (server.tell (P2PServer.blockGossip accepted)).tick.written (flood.outlet link) =
      server.written (flood.outlet link) ++ P2PServer.blockGossip accepted :=
  P2PServer.written_tell _ (by rw [length, ← here]; exact prepared.outlets link)

theorem body_mem_blockGossip (accepted : Accepted host) :
    accepted.body ∈ P2PServer.blockGossip accepted :=
  List.mem_cons_of_mem _ (List.mem_singleton_self _)

theorem known_blockGossip (message : Message) (member : message ∈ P2PServer.blockGossip accepted) :
    (flood.gossip accepted).Known message := by
  rcases List.mem_pair.mp member with rfl | rfl
  · exact .inl rfl
  · exact .inr (.inr rfl)

/-- A server that waits for the block learns it from a peer. -/
theorem Prepared.learns (prepared : flood.Prepared host accepted origin localPolicy params)
    (good : (flood.gossip accepted).Good site server)
    (there : server.peers[place]? = some peer) (waits : accepted.Waits server.node) :
    (flood.gossip accepted).Learns (flood.network host) site server place accepted.body := by
  obtain ⟨calm, length, _⟩ := good
  have sendable : P2PServer.Sendable host accepted.stored :=
    ⟨accepted.stored_isObject, prepared.parses, accepted.passes.fits⟩
  obtain ⟨next, joined, handled⟩ := P2PServer.body_learned there calm waits prepared.portable
    sendable (prepared.inTime site server.turn) prepared.proper
  have ready := (calm.ready peer (List.mem_of_getElem? there)).wrote
    (P2PServer.blockGossip accepted)
  have answered :
      (server.handle host (flood.turns site server.turn) place accepted.body).peers[place]? =
        some (peer.wrote (P2PServer.blockGossip accepted)) := by
    rw [handled]
    change (server.peers.map _)[place]? = _
    rw [List.getElem?_map, there]
    rfl
  have received : (flood.network host).receive site server place accepted.body =
      (P2PServer.tell { server with node := next, bestHeight := next.storage.bestHeight }
        (P2PServer.blockGossip accepted)).tick := by
    have delivered := @P2PServer.deliver_eq _ (flood.turns site) _ _ _ _ _ _ there
      (calm.ready peer (List.mem_of_getElem? there)).opened (by decide) answered ready.opened
      ready.calm
    exact delivered.trans (congrArg (fun result : P2PServer =>
      { result with turn := server.turn + 1 }) handled)
  constructor
  · rw [received]
    exact ⟨calm.tell _, (List.length_map _).trans length, .inr joined⟩
  · intro before
    have stored := before.stored
    rw [waits.unstored] at stored
    cases stored
  · rw [received]
    exact joined
  · exact Nat.one_pos
  · refine ⟨P2PServer.blockGossip accepted, known_blockGossip,
      ⟨_, body_mem_blockGossip accepted, rfl⟩, Nat.le_refl 4, fun link here => ?_⟩
    rw [received]
    exact prepared.told length link here

/-- Each server answers or learns what comes about the block. -/
theorem Prepared.spreads (prepared : flood.Prepared host accepted origin localPolicy params) :
    (flood.gossip accepted).Spreads (flood.network host) := by
  refine ⟨prepared.distinct, fun link server message good known => ?_⟩
  obtain ⟨calm, length, node⟩ := id good
  have sendable : P2PServer.Sendable host accepted.stored :=
    ⟨accepted.stored_isObject, prepared.parses, accepted.passes.fits⟩
  have there := List.getElem?_eq_getElem (length ▸ prepared.inlets link)
  have ready := calm.ready _ (List.mem_of_getElem? there)
  have inv : P2PMsgType.inv ≠ .reject ∧ P2PMsgType.inv ≠ .getblocks := by decide
  have getdata : P2PMsgType.getdata ≠ .reject ∧ P2PMsgType.getdata ≠ .getblocks := by decide
  have block : P2PMsgType.block ≠ .reject ∧ P2PMsgType.block ≠ .getblocks := by decide
  have requested : (flood.gossip accepted).Known accepted.request := .inr (.inl rfl)
  have sent : (flood.gossip accepted).Known accepted.body := .inr (.inr rfl)
  rcases known with rfl | rfl | rfl
  · refine .inl ?_
    have silent : (flood.gossip accepted).Rumour accepted.announcement →
        accepted.Joined server.node := fun same => by cases congrArg Message.type same
    rcases P2PServer.announcement_replies there ready accepted with nothing | asked
    · exact answers good there nothing inv (List.forall_mem_nil _) (by decide : 0 < 3) silent
    · exact answers good there asked inv (List.forall_mem_singleton.mpr requested)
        (by decide : 2 < 3) silent
  · refine .inl ?_
    have silent : (flood.gossip accepted).Rumour accepted.request →
        accepted.Joined server.node := fun same => by cases congrArg Message.type same
    have answered := @P2PServer.request_replies _
      (flood.turns (flood.target link) server.turn) _ _ _ _ there ready accepted
    rcases node with old | joined
    · have unserved : P2PServer.served server.node.storage
          ⟨InvType.block.toUInt32, accepted.hash⟩ = none := by
        rw [old, P2PServer.served, if_pos rfl, (prepared.waits _).unstored]
        rfl
      rw [unserved] at answered
      exact answers good there answered getdata (List.forall_mem_nil _) (by decide : 0 < 2) silent
    · rw [joined.served] at answered
      exact answers good there answered getdata (List.forall_mem_singleton.mpr sent)
        (by decide : 1 < 2) silent
  · rcases node with old | joined
    · refine .inr ?_
      exact prepared.learns good there (old ▸ prepared.waits _)
    · exact .inl (answers good there (P2PServer.body_replies there calm joined sendable) block
        (List.forall_mem_nil _) (by decide : 0 < 1) fun _ => joined)

/-! ## From the submission on -/

/-- The server that the miner calls has the block, and tells everyone. -/
theorem Prepared.submitBlock (prepared : flood.Prepared host accepted origin localPolicy params) :
    ∃ next, accepted.Joined next ∧ (flood.servers origin).tick.submitBlock host
        (flood.turns origin (flood.servers origin).turn) localPolicy params =
      (P2PServer.tell { flood.servers origin with
        node := next, bestHeight := next.storage.bestHeight }
          (P2PServer.blockGossip accepted)).tick := by
  let moment := (flood.turns origin (flood.servers origin).turn).moments 0
  have joined := Accepted.Joined.of_connect (prepared.waits origin) prepared.passed rfl rfl rfl
    prepared.proper
  have unstored := (prepared.waits origin).unstored
  have connected : connection host moment localPolicy (flood.servers origin).node params =
      [accepted] := by
    unfold connection
    rw [prepared.passed]
    simp only [unstored, Option.isSome_none, Bool.false_eq_true, ↓reduceIte]
  have submitted : (rpcSubmitblock host moment localPolicy (flood.servers origin).node params).1 =
      connectBlock host moment localPolicy
        { (flood.servers origin).node with names := accepted.names } accepted.checked := by
    rw [rpcSubmitblock_of_some prepared.passed, unstored]
  have nonempty : accepted.stored.dump.bytes.isEmpty = false :=
    P2PServer.bytes_nonempty accepted.stored_isObject
  refine ⟨_, joined, ?_⟩
  unfold P2PServer.submitBlock
  change P2PServer.gossipConnection { (flood.servers origin).tick with
    node := (rpcSubmitblock host moment localPolicy (flood.servers origin).node params).1 }
    (connection host moment localPolicy (flood.servers origin).node params) = _
  rw [connected, submitted]
  generalize connectBlock host moment localPolicy
    { (flood.servers origin).node with names := accepted.names } accepted.checked = next at joined ⊢
  refine (@P2PServer.gossipBlock_ready accepted.height { (flood.servers origin).tick with
    node := next } (prepared.calm origin).ready _ nonempty _).trans ?_
  rw [P2PServer.refreshHeight, if_pos joined.hasTip]
  rfl

variable [DecidableEq Site]

theorem Prepared.states_origin (prepared : flood.Prepared host accepted origin localPolicy params) :
    ∃ next, accepted.Joined next ∧
      (flood.submitted host origin localPolicy params).states origin =
        (P2PServer.tell { flood.servers origin with
          node := next, bestHeight := next.storage.bestHeight }
            (P2PServer.blockGossip accepted)).tick := by
  obtain ⟨next, joined, same⟩ := prepared.submitBlock
  exact ⟨next, joined, (Function.update_self _ _ _).trans same⟩

theorem states_other (apart : site ≠ origin) :
    (flood.submitted host origin localPolicy params).states site = flood.servers site :=
  Function.update_of_ne apart _ _

/-- What is on its way at the start. -/
theorem Prepared.pending (prepared : flood.Prepared host accepted origin localPolicy params)
    (link : Link) :
    (flood.network host).pending (flood.submitted host origin localPolicy params) link =
      if flood.source link = origin then P2PServer.blockGossip accepted else [] := by
  change (((flood.submitted host origin localPolicy params).states (flood.source link)).written
    (flood.outlet link)).drop ((flood.servers (flood.source link)).written
      (flood.outlet link)).length = _
  by_cases here : flood.source link = origin
  · obtain ⟨next, _, same⟩ := prepared.states_origin
    have told := @Prepared.told _ _ _ _ _ _ _ _ _ { flood.servers origin with
      node := next, bestHeight := next.storage.bestHeight } prepared rfl link here
    rw [if_pos here, here, same, told]
    exact List.drop_left
  · rw [if_neg here, states_other here, List.drop_length]

theorem Prepared.joined_origin
    (prepared : flood.Prepared host accepted origin localPolicy params) :
    accepted.Joined ((flood.submitted host origin localPolicy params).states origin).node := by
  obtain ⟨next, joined, same⟩ := prepared.states_origin
  rw [same]
  exact joined

theorem Prepared.unjoined (prepared : flood.Prepared host accepted origin localPolicy params)
    (apart : site ≠ origin) :
    ¬accepted.Joined ((flood.submitted host origin localPolicy params).states site).node := by
  rw [states_other apart]
  intro joined
  have stored := joined.stored
  rw [(prepared.waits site).unstored] at stored
  cases stored

/-- The block spreads from the server that the miner calls. -/
theorem Prepared.spreading (prepared : flood.Prepared host accepted origin localPolicy params) :
    (flood.gossip accepted).Spreading (flood.network host)
      (flood.submitted host origin localPolicy params) where
  sent link := by
    change ((flood.servers (flood.source link)).written (flood.outlet link)).length ≤
      (((flood.submitted host origin localPolicy params).states (flood.source link)).written
        (flood.outlet link)).length
    by_cases here : flood.source link = origin
    · obtain ⟨next, _, same⟩ := prepared.states_origin
      have told := @Prepared.told _ _ _ _ _ _ _ _ _ { flood.servers origin with
        node := next, bestHeight := next.storage.bestHeight } prepared rfl link here
      rw [here, same, told]
      exact (List.prefix_append _ _).length_le
    · rw [states_other here]
  good site := by
    by_cases here : site = origin
    · obtain ⟨next, joined, same⟩ := prepared.states_origin
      rw [here, same]
      exact ⟨(prepared.calm origin).tell _, List.length_map _, .inr joined⟩
    · rw [states_other here]
      exact ⟨prepared.calm site, rfl, .inl rfl⟩
  known link message listed := by
    rw [prepared.pending] at listed
    split at listed
    · exact known_blockGossip message listed
    · cases listed
  told link aware := by
    have here : flood.source link = origin := by
      by_contra apart
      exact prepared.unjoined apart aware
    refine .inr ⟨accepted.body, ?_, rfl⟩
    rw [prepared.pending, if_pos here]
    exact body_mem_blockGossip accepted

/-- All that may be delivered of the block: four messages on each link. -/
theorem Prepared.burden [Fintype Link]
    (prepared : flood.Prepared host accepted origin localPolicy params) :
    (flood.gossip accepted).burden (flood.network host)
      (flood.submitted host origin localPolicy params) = 4 * Fintype.card Link := by
  have each : ∀ link, (flood.gossip accepted).due (flood.network host)
      (flood.submitted host origin localPolicy params) link = 4 := by
    intro link
    rw [Gossip.due, prepared.pending]
    by_cases here : flood.source link = origin
    · have aware : (flood.gossip accepted).Informed ((flood.submitted host origin localPolicy
          params).states ((flood.network host).source link)) := by
        change accepted.Joined ((flood.submitted host origin localPolicy params).states
          (flood.source link)).node
        rw [here]
        exact prepared.joined_origin
      rw [if_pos here, if_pos aware]
      rfl
    · have unaware : ¬(flood.gossip accepted).Informed ((flood.submitted host origin localPolicy
          params).states ((flood.network host).source link)) := prepared.unjoined here
      rw [if_neg here, if_neg unaware]
      rfl
  rw [Gossip.burden, Finset.sum_const_nat fun link _ => each link, Finset.card_univ, Nat.mul_comm]

end Flood

variable {Site Link : Type} [DecidableEq Site] [DecidableEq Link] [Fintype Link]

/-- **A block reaches everyone.** Servers that wait for a block, one of which gets it from a
miner, deliver at most four messages on each link, in every order. All along each of them is
as it was or has the block on its tip, with every session open, and when nothing is on its
way any more the block is the tip of all servers that links lead to. -/
theorem block_spreads {flood : Flood Site Link} {accepted : Accepted host} {origin : Site}
    {localPolicy : Bool} {params : Json}
    (prepared : flood.Prepared host accepted origin localPolicy params)
    {calls : List Link} {log : List Unit} {traffic : Traffic Site P2PServer Link}
    (run : (flood.network host).machine.Runs (fun _ _ => True)
      (flood.submitted host origin localPolicy params) calls log traffic) :
    calls.length ≤ 4 * Fintype.card Link ∧
      (∀ site, (traffic.states site).Idle accepted.height ∧
        ((traffic.states site).node = (flood.servers site).node ∨
          accepted.Joined (traffic.states site).node)) ∧
      ((∀ link, (flood.network host).deliver traffic link = none) →
        ∀ site, (flood.network host).Behind origin site →
          (traffic.states site).node.storage.bestBlockHash = accepted.hash ∧
            (traffic.states site).node.storage.bestHeight = accepted.height) := by
  obtain ⟨spreading, kept, paid⟩ := prepared.spreading.run prepared.spreads run
  rw [prepared.burden] at paid
  refine ⟨Nat.le_trans (Nat.le_add_right _ _) paid, fun site => ?_, fun stuck site behind => ?_⟩
  · obtain ⟨calm, _, node⟩ := spreading.good site
    exact ⟨calm, node⟩
  · have joined : accepted.Joined (traffic.states site).node :=
      spreading.reaches stuck (kept origin prepared.joined_origin) behind
    exact ⟨joined.bestBlockHash, joined.bestHeight⟩

/-! ## Two servers -/

/-- A server on a node, with one session whose handshake is complete. -/
def pairedServer (node : Node) : P2PServer :=
  { quietServer node with
    peers := [{ P2PServer.newPeer P2PServer.noAddr true none with handshakeComplete := true }] }

theorem pairedServer_node (node : Node) : (pairedServer node).node = node := rfl

theorem pairedServer_idle (node : Node) (height : Nat) : (pairedServer node).Idle height :=
  ⟨rfl, rfl, List.forall_mem_singleton.mpr ⟨rfl, rfl, rfl, rfl, Nat.zero_le height⟩⟩

/-- Two servers with the first block, connected to each other. The second one has left another
block again, and a flag waits on it. -/
def spendingFlood : Flood Bool Bool where
  turns _ _ := openingTurn
  servers site := pairedServer (if site then busyNode else openedNode storedHost)
  source := id
  outlet _ := 0
  target := not
  inlet _ := 0

/-- The paths of nodes on one active chain have the same hashes. -/
theorem SameActive.hashes {node other : Node} (same : SameActive node other)
    {chain later : List BlockHeader} (path : Path node.storage.chainIndex chain)
    (again : Path other.storage.chainIndex later) :
    later.map BlockHeader.hash = chain.map BlockHeader.hash := by
  have heights : (if later.isEmpty then [] else indexRows later) =
      if chain.isEmpty then [] else indexRows chain :=
    again.heights.symm.trans (same.heightToHash.trans path.heights)
  cases chain with
  | nil =>
      cases later with
      | nil => rfl
      | cons _ _ => cases heights
  | cons _ _ =>
      cases later with
      | nil => cases heights
      | cons _ _ => exact List.tail_eq_of_cons_eq heights

theorem busyNode_path : ∃ chain, Path busyNode.storage.chainIndex chain ∧
    ∀ header ∈ chain, header.hash ≠ Digest.zero := by
  obtain ⟨calls, log, run⟩ := rolledBack_run storedHost
    (fun state call => Stable.storesBinary storedHost state call = false) rfl rfl
  obtain ⟨chain, path⟩ := @OnPath.run _ (Node.empty fun _ => none) sampleMoment _ _ _ run
  rw [← busy_storage, ← busyNode] at path
  refine ⟨chain, path, fun header member => ?_⟩
  have listed : header.hash ∈ [openingHeader].map BlockHeader.hash :=
    busyNode_same.hashes openedNode_path path ▸ List.mem_map_of_mem member
  rw [List.mem_singleton.mp listed]
  decide

theorem spendingFlood_node (site : Bool) :
    (spendingFlood.servers site).node = if site then busyNode else openedNode storedHost :=
  pairedServer_node _

theorem spendingFlood_prepared :
    spendingFlood.Prepared storedHost spendingAccepted false false spendingBlock.json where
  passed := by
    rw [spendingFlood_node, if_neg Bool.false_ne_true]
    exact acceptance_of_passed rfl spending_passed
  proper := by decide
  portable := spendingAccepted_portable
  parses := storedHost_parse_spending
  inTime _ _ := spendingAccepted_inTime
  waits site := by
    rw [spendingFlood_node]
    split
    · exact ⟨spendingAccepted_beside busyNode_same busyNode_names, busyNode_path,
        busyNode_unstored⟩
    · exact ⟨spendingAccepted_beside (.refl _) rfl,
        ⟨_, openedNode_path, List.forall_mem_singleton.mpr (by decide)⟩, openedNode_unstored⟩
  calm _ := pairedServer_idle _ _
  distinct _ _ same _ := same
  outlets _ := Nat.one_pos
  inlets _ := Nat.one_pos

/-- The second server gets the spend from the other one. -/
theorem block_spreads_spending :
    ∃ (calls : List Bool) (log : List Unit) (traffic : Traffic Bool P2PServer Bool),
      spendingFlood.Prepared storedHost spendingAccepted false false spendingBlock.json ∧
      (spendingFlood.network storedHost).machine.Runs (fun _ _ => True)
        (spendingFlood.submitted storedHost false false spendingBlock.json) calls log traffic ∧
      calls.length ≤ 4 * Fintype.card Bool ∧
      (∀ site, (traffic.states site).Idle spendingAccepted.height ∧
        ((traffic.states site).node = (spendingFlood.servers site).node ∨
          spendingAccepted.Joined (traffic.states site).node)) ∧
      (traffic.states true).node.storage.bestBlockHash = spendingHash ∧
      (traffic.states true).node.storage.bestHeight = 2 := by
  have prepared := spendingFlood_prepared
  obtain ⟨calls, log, traffic, run, stuck⟩ := prepared.spreading.exhausts prepared.spreads
  obtain ⟨few, nodes, reached⟩ := block_spreads prepared run
  have behind : (spendingFlood.network storedHost).Behind false true :=
    .single ⟨false, rfl, rfl⟩
  exact ⟨calls, log, traffic, prepared, run, few, nodes, reached stuck true behind⟩

end PiSecure
