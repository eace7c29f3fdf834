import PiSecure.Theory.Link
import PiSecure.Theory.Locator
import PiSecure.Theory.Relay
import PiSecure.Theory.ServedHeaders

/-! # Catching up

Two servers on one connection, one of them with a part of the active chain of the other.
However their messages are delivered, the shorter chain only grows along the longer one,
and when nothing is on its way any more it is the whole of it.
-/

namespace PiSecure

variable {host : Host} {turns : Nat → Turn}

/-! ## The chain that is served -/

/-- The document of a block that a node can hand out. -/
structure Shown (host : Host) (storage : Storage) (header : BlockHeader) (body : Json) : Prop where
  sendable : P2PServer.Sendable host body
  named : body.text? "hash" = some (toHex header.hash)
  read : (storage.blockIndex header.hash).bind storage.readBlock = some body.dump.bytes
  proper : header.hash ≠ Digest.zero

/-- A node with an active chain whose documents it can hand out. -/
structure Serves (host : Host) (node : Node) (chain : List BlockHeader) (bodies : List Json) :
    Prop where
  path : Path node.storage.chainIndex chain
  shown : List.Forall₂ (Shown host node.storage) chain bodies

/-- A node accepts some blocks one after the other, at whatever turns they come, and what it
stores of them goes through as a message. -/
def TakesOver (host : Host) (turns : Nat → Turn) : Node → List Json → Prop
  | _, [] => True
  | node, body :: rest => ∀ number, ∃ accepted,
      connection host ((turns number).moments 0) false node body = [accepted] ∧
        host.parse accepted.stored.dump.bytes = some accepted.stored ∧
        TakesOver host turns
          (rpcSubmitblock host ((turns number).moments 0) false node body).1 rest

/-- A node whose active chain is the front of a chain, and that will accept the rest. -/
structure OnFront (host : Host) (turns : Nat → Turn) (chain : List BlockHeader)
    (bodies : List Json) (height : Nat) (node : Node) : Prop where
  path : ∃ short, Path node.storage.chainIndex short ∧
    short.map BlockHeader.hash = (chain.map BlockHeader.hash).take height
  unstored : ∀ header ∈ chain.drop height, node.storage.blockIndex header.hash = none
  takes : TakesOver host turns node (bodies.drop height)

variable {node : Node} {chain : List BlockHeader} {bodies : List Json} {height : Nat}

/-- The entries of the height index are different, the filler included. -/
theorem Path.rows_nodup {index : ChainIndex} (path : Path index chain)
    (proper : ∀ header ∈ chain, header.hash ≠ Digest.zero) : (indexRows chain).Nodup := by
  refine List.nodup_cons.mpr ⟨?_, path.distinct⟩
  intro member
  obtain ⟨header, listed, zero⟩ := List.mem_map.mp member
  exact proper header listed zero

namespace Serves

variable (serves : Serves host node chain bodies)
include serves

/-- The document at a place of the chain. -/
theorem shows_at {place : Nat} {header : BlockHeader} (listed : chain[place]? = some header) :
    ∃ body, bodies[place]? = some body ∧ Shown host node.storage header body := by
  obtain ⟨inside, rfl⟩ := List.getElem?_eq_some_iff.mp listed
  have there : place < bodies.length := serves.shown.length_eq ▸ inside
  exact ⟨bodies[place], List.getElem?_eq_getElem there, serves.shown.get inside there⟩

theorem proper : ∀ header ∈ chain, header.hash ≠ Digest.zero := by
  intro header member
  obtain ⟨place, listed⟩ := List.mem_iff_getElem?.mp member
  obtain ⟨body, _, shown⟩ := serves.shows_at listed
  exact shown.proper

theorem rows_nodup : (indexRows chain).Nodup := serves.path.rows_nodup serves.proper

end Serves

/-! ## The next block -/

/-- A block that is submitted as an object is what the acceptance records. -/
theorem acceptance_object {moment : Moment} {localPolicy : Bool} {body : Json}
    {accepted : Accepted host} (isObject : body.isObject = true)
    (passed : acceptance host moment localPolicy node body = some accepted) :
    accepted.block = body := by
  unfold acceptance at passed
  cases body with
  | object members =>
      cases members with
      | nil => cases passed
      | cons member members =>
          simp only [asObjectParam] at passed
          split at passed
          · cases passed
            rfl
          · cases passed
  | _ => cases isObject

/-- An accepted block has the hash that it names. -/
theorem Accepted.hash_eq {accepted : Accepted host} {hash : Digest}
    (named : accepted.block.text? "hash" = some (toHex hash)) : accepted.hash = hash := by
  have read := accepted.fieldsRead.hash
  rw [named] at read
  have claimed := (checkWork_ok.mp accepted.passes.work).2.2.2.2.1
  rw [← Option.some.inj read, fromHex_toHex] at claimed
  exact (Option.some.inj claimed).symm

/-- What a node on the front of a chain does with the next block. -/
structure Joins (host : Host) (turns : Nat → Turn) (chain : List BlockHeader) (bodies : List Json)
    (height number : Nat) (node : Node) (body : Json) (accepted : Accepted host) : Prop where
  passed : acceptance host ((turns number).moments 0) false node body = some accepted
  unstored : node.storage.blockIndex accepted.hash = none
  hash : (chain.map BlockHeader.hash)[height]? = some accepted.hash
  prev : (indexRows chain)[height]? = some accepted.prev
  sendable : P2PServer.Sendable host accepted.stored
  front : OnFront host turns chain bodies (height + 1)
    (connectBlock host ((turns number).moments 0) false { node with names := accepted.names }
      accepted.checked)

/-- The next header follows the tip. -/
theorem OnFront.rooted {leader : Node} (serves : Serves host leader chain bodies)
    (front : OnFront host turns chain bodies height node) {header : BlockHeader}
    (listed : chain[height]? = some header) :
    header.prevBlockHash = Digest.zero ∨
      (node.storage.getHeaderByHash header.prevBlockHash).isSome := by
  obtain ⟨short, path, same⟩ := front.path
  have link := (serves.path.links height header listed).2
  cases height with
  | zero => exact .inl (Option.some.inj link).symm
  | succ place =>
      rw [indexRows, List.getElem?_cons_succ, ← List.getElem?_take_of_lt (Nat.lt_succ_self place),
        ← same] at link
      obtain ⟨parent, member, hash⟩ := List.mem_map.mp (List.mem_of_getElem? link)
      have cached : node.storage.getHeaderByHash parent.hash = some parent :=
        path.cached parent member
      rw [← hash, cached]
      exact .inr rfl

theorem OnFront.joins {leader : Node} (serves : Serves host leader chain bodies)
    (front : OnFront host turns chain bodies height node) {header : BlockHeader}
    (listed : chain[height]? = some header) (number : Nat) :
    ∃ body accepted, bodies[height]? = some body ∧ Shown host leader.storage header body ∧
      Joins host turns chain bodies height number node body accepted := by
  obtain ⟨body, there, shown⟩ := serves.shows_at listed
  obtain ⟨inside, atHeight⟩ := List.getElem?_eq_some_iff.mp listed
  obtain ⟨below, atBody⟩ := List.getElem?_eq_some_iff.mp there
  have takes := front.takes
  rw [List.drop_eq_getElem_cons below, atBody] at takes
  obtain ⟨accepted, connected, parses, later⟩ := takes number
  rcases submission_cases host ((turns number).moments 0) false node body with
    ⟨nothing, _⟩ | ⟨other, passed, unstored, only, moved⟩
  · rw [connected] at nothing
    cases nothing
  rw [connected] at only
  cases only
  have hash : accepted.hash = header.hash := by
    refine Accepted.hash_eq ?_
    rw [acceptance_object shown.sendable.isObject passed]
    exact shown.named
  obtain ⟨short, path, same⟩ := front.path
  have length : short.length = height := by
    have lengths := congrArg List.length same
    rw [List.length_map, List.length_take, List.length_map] at lengths
    omega
  have row : (chain.map BlockHeader.hash)[height]? = some header.hash := by
    rw [List.getElem?_map, listed]
    rfl
  have rows : indexRows short = (indexRows chain).take (height + 1) := by
    rw [indexRows, indexRows, List.take_succ_cons, same]
  have prev : (indexRows chain)[height]? = some accepted.prev := by
    have tip := path.bestHash
    rw [length, rows, List.getElem?_take_of_lt (Nat.lt_succ_self height)] at tip
    rw [tip, path.tip, Storage.tip_chainIndex, accepted.prev_eq, (acceptance_of passed).node_eq]
  refine ⟨body, accepted, there, shown, passed, unstored, by rw [row, hash], prev,
    ⟨accepted.stored_isObject, parses, accepted.passes.fits⟩, ⟨short ++ [accepted.header],
    path.connect passed unstored, ?_⟩, ?_, by rwa [← moved]⟩
  · rw [List.map_append, same, List.take_add_one, row, ← hash]
    rfl
  · intro other member
    have distinct := (List.drop_sublist height (chain.map BlockHeader.hash)).nodup
      serves.path.distinct
    rw [← List.map_drop, List.drop_eq_getElem_cons inside, atHeight, List.map_cons,
      List.nodup_cons] at distinct
    have apart : other.hash ≠ accepted.header.hash := by
      intro same
      have sameHash : accepted.header.hash = header.hash := hash
      exact distinct.1 (List.mem_map.mpr ⟨other, member, same.trans sameHash⟩)
    have older : other ∈ chain.drop height := by
      rw [List.drop_eq_getElem_cons inside]
      exact List.mem_cons_of_mem _ member
    have grown := congrArg ChainIndex.hashToIndex (path.shaped.connect_index passed)
    have known := congrArg (Finmap.lookup other.hash) grown
    exact known.trans ((Finmap.lookup_insert_of_ne _ apart).trans (front.unstored other older))

/-- Paths of the same hashes have the same entries and the same tip. -/
theorem Path.alike {first second : Storage} {short long : List BlockHeader}
    (path : Path first.chainIndex short) (other : Path second.chainIndex long)
    (same : short.map BlockHeader.hash = long.map BlockHeader.hash) :
    first.heightToHash = second.heightToHash ∧ first.bestBlockHash = second.bestBlockHash := by
  have rows : indexRows short = indexRows long := congrArg (Digest.zero :: ·) same
  have length : short.length = long.length := by
    have lengths := congrArg List.length same
    rwa [List.length_map, List.length_map] at lengths
  have empty : short.isEmpty = long.isEmpty := by
    have empties := congrArg List.isEmpty same
    rwa [List.isEmpty_map, List.isEmpty_map] at empties
  have heights := path.heights
  have tip := path.bestHash
  rw [empty, rows] at heights
  rw [rows, length] at tip
  exact ⟨heights.trans other.heights.symm, Option.some.inj (tip.symm.trans other.bestHash)⟩

/-! ## What is asked for and served -/

/-- With step one the loop keeps what it has, and stops at ten hashes. -/
theorem locatorLoop_grows (heightToHash : List Digest) {height : ℕ} {locator : List Digest}
    (short : locator.length ≤ 10) :
    locator <+: Storage.locatorLoop heightToHash height 1 Nat.one_pos locator ∧
      (Storage.locatorLoop heightToHash height 1 Nat.one_pos locator).length ≤ 10 := by
  induction height generalizing locator with
  | zero =>
      rw [Storage.locatorLoop, if_neg fun more => Nat.lt_irrefl 0 more.1]
      exact ⟨List.prefix_refl _, short⟩
  | succ height ih =>
      by_cases more : locator.length < 10
      · have added : heightToHash[height + 1]?.toList.length ≤ 1 := Option.length_toList_le
        have grown : (locator ++ heightToHash[height + 1]?.toList).length ≤ 10 := by
          rw [List.length_append]
          omega
        rw [Storage.locatorLoop, if_pos ⟨Nat.succ_pos height, more⟩]
        dsimp only
        rw [if_neg (by omega), if_neg (by omega), Nat.add_sub_cancel]
        exact ⟨(List.prefix_append _ _).trans (ih grown).1, (ih grown).2⟩
      · rw [Storage.locatorLoop, if_neg fun wrong => more wrong.2]
        exact ⟨List.prefix_refl _, short⟩

theorem length_getBlockLocatorHashes (storage : Storage) :
    storage.getBlockLocatorHashes.length ≤ 500 := by
  have loop := (@locatorLoop_grows storage.heightToHash storage.bestHeight [] (Nat.zero_le 10)).2
  have filler : storage.heightToHash.head?.toList.length ≤ 1 := Option.length_toList_le
  rw [Storage.getBlockLocatorHashes, List.length_append]
  omega

/-- The locator of a path starts with its tip. -/
theorem head_getBlockLocatorHashes {storage : Storage} {short : List BlockHeader}
    (path : Path storage.chainIndex short) (present : 0 < short.length) :
    storage.getBlockLocatorHashes.head? = some storage.bestBlockHash := by
  have bestHeight : storage.bestHeight = short.length := path.bestHeight
  have tip : storage.heightToHash[storage.bestHeight]? = some storage.bestBlockHash := by
    rw [path.rows present, bestHeight]
    exact path.bestHash
  obtain ⟨below, height⟩ := Nat.exists_eq_add_of_le' (bestHeight ▸ present)
  rw [height] at tip
  have first : [storage.bestBlockHash] <+: Storage.locatorLoop storage.heightToHash
      storage.bestHeight 1 Nat.one_pos [] := by
    rw [height, Storage.locatorLoop, if_pos ⟨Nat.succ_pos below, by decide⟩, tip,
      Option.toList_some, List.nil_append]
    dsimp only
    have short : [storage.bestBlockHash].length ≤ 10 := Nat.le_of_ble_eq_true rfl
    rw [if_neg (by omega), if_neg (Nat.not_lt.mpr short), Nat.add_sub_cancel]
    exact (locatorLoop_grows _ short).1
  obtain ⟨rest, same⟩ := first
  rw [Storage.getBlockLocatorHashes, ← same]
  rfl

/-- The height of the first header of an answer. -/
def answerHeight (storage : Storage) (locatorHashes : List Digest) : ℕ :=
  ((startHeader storage locatorHashes).map fun header => header.height + 1).getD 1

namespace Serves

variable {leader : Node} (serves : Serves host leader chain bodies)
include serves

/-- A locator that starts with the hash of an active block asks for what follows it. -/
theorem answerHeight_eq {header : BlockHeader} {place : ℕ} (listed : chain[place]? = some header)
    {locatorHashes : List Digest} (first : locatorHashes.head? = some header.hash) :
    answerHeight leader.storage locatorHashes = place + 2 := by
  have known : leader.storage.getHeaderByHash header.hash = some header :=
    serves.path.cached header (List.mem_of_getElem? listed)
  have linkedAt := (serves.path.links place header listed).1
  cases locatorHashes with
  | nil => cases first
  | cons hash rest =>
      cases first
      rw [answerHeight, startHeader, List.findSome?_cons, known, Option.map_some, Option.getD_some,
        linkedAt]

/-- The locator of a node on the front of the chain asks for the rest. -/
theorem answerHeight_front (front : OnFront host turns chain bodies height node)
    (inside : height ≤ chain.length) :
    answerHeight leader.storage node.storage.getBlockLocatorHashes = height + 1 := by
  obtain ⟨short, path, same⟩ := front.path
  have length : short.length = height := by
    have lengths := congrArg List.length same
    rw [List.length_map, List.length_take, List.length_map] at lengths
    omega
  cases height with
  | zero =>
      have emptyShort := List.eq_nil_of_length_eq_zero length
      subst emptyShort
      have heights : node.storage.heightToHash = [] := path.heights
      have bestHeight : node.storage.bestHeight = 0 := path.bestHeight
      rw [Storage.getBlockLocatorHashes, heights, bestHeight, Storage.locatorLoop,
        if_neg fun more => Nat.lt_irrefl 0 more.1]
      rfl
  | succ place =>
      have inside : place < chain.length := by omega
      have listed := List.getElem?_eq_getElem inside
      have tip : node.storage.bestBlockHash = chain[place].hash := by
        have row := path.bestHash
        rw [length, indexRows, List.getElem?_cons_succ, same,
          List.getElem?_take_of_lt (Nat.lt_succ_self place), List.getElem?_map, listed] at row
        exact (Option.some.inj row).symm
      have first := head_getBlockLocatorHashes path (by omega)
      rw [tip] at first
      exact serves.answerHeight_eq listed first

/-- An answer is the next stretch of the chain. -/
theorem headersFrom_eq (room place : ℕ) :
    headersFrom leader.storage Digest.zero room (place + 1) = (chain.drop place).take room := by
  have bestHeight : leader.storage.bestHeight = chain.length := serves.path.bestHeight
  induction room generalizing place with
  | zero => rw [headersFrom, List.take_zero]
  | succ room ih =>
      rw [headersFrom, serves.path.getHeaderByHeight_eq]
      split
      next above => rw [List.drop_eq_nil_of_le (by omega), List.take_nil]
      next inside =>
        have within : place < chain.length := by omega
        have listed := List.getElem?_eq_getElem within
        rw [listed, List.drop_eq_getElem_cons within, List.take_succ_cons]
        dsimp only
        rw [if_neg (serves.proper _ (List.mem_of_getElem? listed)), ih]

theorem handleGetHeaders_eq {locatorHashes : List Digest} {place : ℕ}
    (starts : answerHeight leader.storage locatorHashes = place + 1) :
    PiSecure.handleGetHeaders leader.storage locatorHashes Digest.zero =
      (chain.drop place).take 2000 := by
  rw [← serves.headersFrom_eq, ← starts]
  rfl

end Serves

/-- The message that carries a block. -/
def blockMessage (body : Json) : Message := ⟨.block, body.dump.bytes⟩

/-- The blocks of a stretch of the chain are served as they are stored. -/
theorem served_blocks {storage : Storage} {headers : List BlockHeader} {documents : List Json}
    (shown : List.Forall₂ (Shown host storage) headers documents) :
    (P2PServer.blockItems headers).filterMap (P2PServer.served storage) =
      documents.map blockMessage := by
  induction shown with
  | nil => rfl
  | cons shows _ ih =>
      rw [P2PServer.blockItems, List.map_cons, List.filterMap_cons, P2PServer.served, if_pos rfl,
        shows.read, Option.map_some, List.map_cons]
      exact congrArg (_ :: ·) ih

/-! ## Deliveries between the two -/

open P2PServer

/-- A message that a server with the whole chain takes without an answer. -/
def Ignored (host : Host) (turns : Nat → Turn) (place : Nat) (leader : Node) (message : Message) :
    Prop :=
  ∀ (refusedTips : List Text) (peer : Session) (server : P2PServer),
    Open place leader ⟨[], refusedTips⟩ peer server →
      peer.startHeight.toNat ≤ leader.storage.bestHeight →
        Open place leader ⟨[], refusedTips⟩ peer (server.deliver host turns place message)

/-- The gossip about a block of the chain is ignored. -/
theorem Joins.ignored {leader : Node} (serves : Serves host leader chain bodies)
    {place number : Nat} {body : Json} {accepted : Accepted host} {others : Nat → Turn}
    (joins : Joins host turns chain bodies height number node body accepted) :
    ∀ message ∈ blockGossip accepted, Ignored host others place leader message := by
  have member := List.mem_of_getElem? joins.hash
  obtain ⟨header, listed, same⟩ := List.mem_map.mp member
  have inside : height < chain.length := by
    have below := (List.getElem?_eq_some_iff.mp joins.hash).1
    rwa [List.length_map] at below
  have stored : (leader.storage.blockIndex accepted.hash).isSome := by
    rw [← same]
    exact Finmap.lookup_isSome.mpr (serves.path.stored header listed)
  have elsewhere : expectPrev leader.storage ≠ accepted.prev := by
    intro tip
    have top := serves.path.bestHash
    rw [serves.path.tip, Storage.tip_chainIndex, tip, ← joins.prev] at top
    have last : chain.length < (indexRows chain).length := by
      rw [length_indexRows]
      exact Nat.lt_succ_self _
    exact absurd ((List.getElem?_inj last serves.rows_nodup).mp top) (by omega)
  have forgotten := dropCanonical_note serves.path (by omega) serves.proper member
    (accepted.stored_text? "hash" (toHex accepted.hash) rfl)
  intro message told refusedTips peer server is low
  rcases List.mem_pair.mp told with rfl | rfl
  · exact is.inv_stored stored
  · exact is.stale joins.sendable (accepted.stored_text? "hash" (toHex accepted.hash) rfl)
      (accepted.stored_refused elsewhere) forgotten low

/-- Two servers on one connection: the turns and the place of each, and the node whose chain
the other one is to get. -/
structure Sync where
  host : Host
  leaderTurns : Nat → Turn
  followerTurns : Nat → Turn
  leaderPlace : Nat
  followerPlace : Nat
  leader : Node
  chain : List BlockHeader
  bodies : List Json

namespace Sync

/-- The server with the whole chain as a party. -/
abbrev left (sync : Sync) : Party P2PServer Message Message :=
  link sync.host sync.leaderTurns sync.leaderPlace

/-- The server that is to get the chain as a party. -/
abbrev right (sync : Sync) : Party P2PServer Message Message :=
  link sync.host sync.followerTurns sync.followerPlace

/-- Messages that the leader takes without an answer. -/
def Silent (sync : Sync) (messages : List Message) : Prop :=
  ∀ message ∈ messages, Ignored sync.host sync.leaderTurns sync.leaderPlace sync.leader message

/-- The connection is open, the leader has not changed, and the active chain of the follower
is a front of the chain, of some height at least. -/
structure Climbing (sync : Sync) (least : Nat) (exchange : Exchange P2PServer P2PServer) :
    Prop where
  kept : exchange.left.node = sync.leader
  leftOpen : exchange.left.closedAt sync.leaderPlace = none
  rightOpen : exchange.right.closedAt sync.followerPlace = none
  path : ∃ reached short, least ≤ reached ∧ reached ≤ sync.chain.length ∧
    Path exchange.right.node.storage.chainIndex short ∧
    short.map BlockHeader.hash = (sync.chain.map BlockHeader.hash).take reached

/-- Deliveries during which the follower only climbs. -/
abbrev Advances (sync : Sync) (least : Nat) :
    Exchange P2PServer P2PServer → Exchange P2PServer P2PServer → Prop :=
  Exchange.Goes sync.left sync.right (sync.Climbing least)

variable {sync : Sync} {least : Nat} {exchange : Exchange P2PServer P2PServer}
  {toLeader toFollower : List Message}

theorem climbing_of {node : Node} {height : Nat} {branches held : Branches} {peer other : Session}
    (leads : Open sync.leaderPlace sync.leader held other exchange.left)
    (follows : Open sync.followerPlace node branches peer exchange.right)
    (front : OnFront sync.host sync.followerTurns sync.chain sync.bodies height node)
    (least_le : least ≤ height) (inside : height ≤ sync.chain.length) :
    sync.Climbing least exchange := by
  obtain ⟨short, path, same⟩ := front.path
  exact ⟨leads.node_eq, (closedAt_eq leads.there).trans leads.opened,
    (closedAt_eq follows.there).trans follows.opened,
    height, short, least_le, inside, follows.node_eq ▸ path, same⟩

/-- The leader takes a message and writes some answers. -/
theorem takes_left {message : Message} {node next : Node} {branches held : Branches}
    {peer after : Session} {answers : List Message} (climbing : sync.Climbing least exchange)
    (pending : Exchange.Pending sync.left sync.right exchange (message :: toLeader) toFollower)
    (is : Open sync.leaderPlace node branches peer exchange.left)
    (done : Open sync.leaderPlace next held after
      (exchange.left.deliver sync.host sync.leaderTurns sync.leaderPlace message))
    (told : after.output = peer.output ++ answers) :
    ∃ later, sync.Advances least exchange later ∧
      Open sync.leaderPlace next held after later.left ∧ later.right = exchange.right ∧
      Exchange.Pending sync.left sync.right later toLeader (toFollower ++ answers) := by
  have grown : sync.left.sent (sync.left.receive exchange.left message) =
      sync.left.sent exchange.left ++ answers :=
    (done.written.trans told).trans (congrArg (· ++ answers) is.written).symm
  obtain ⟨later, goes, left, right, pending⟩ := Exchange.Goes.atLeft climbing pending grown
  exact ⟨later, goes, left ▸ done, right, pending⟩

/-- The follower takes a message and writes some answers. -/
theorem takes_right {message : Message} {node next : Node} {branches held : Branches}
    {peer after : Session} {answers : List Message} (climbing : sync.Climbing least exchange)
    (pending : Exchange.Pending sync.left sync.right exchange toLeader (message :: toFollower))
    (is : Open sync.followerPlace node branches peer exchange.right)
    (done : Open sync.followerPlace next held after
      (exchange.right.deliver sync.host sync.followerTurns sync.followerPlace message))
    (told : after.output = peer.output ++ answers) :
    ∃ later, sync.Advances least exchange later ∧ later.left = exchange.left ∧
      Open sync.followerPlace next held after later.right ∧
      Exchange.Pending sync.left sync.right later (toLeader ++ answers) toFollower := by
  have grown : sync.right.sent (sync.right.receive exchange.right message) =
      sync.right.sent exchange.right ++ answers :=
    (done.written.trans told).trans (congrArg (· ++ answers) is.written).symm
  obtain ⟨later, goes, left, right, pending⟩ := Exchange.Goes.atRight climbing pending grown
  exact ⟨later, goes, left, right ▸ done, pending⟩

/-- The leader is ready, and what is on its way to it is known. -/
structure Stage (sync : Sync) (height : Nat) (exchange : Exchange P2PServer P2PServer)
    (toLeader toFollower : List Message) : Prop where
  leads : ∃ refusedTips peer,
    Open sync.leaderPlace sync.leader ⟨[], refusedTips⟩ peer exchange.left ∧
      peer.startHeight.toNat ≤ sync.leader.storage.bestHeight
  follows : ∃ node branches peer, Open sync.followerPlace node branches peer exchange.right ∧
    peer.handshakeComplete = true ∧
    OnFront sync.host sync.followerTurns sync.chain sync.bodies height node
  inside : height ≤ sync.chain.length
  pending : Exchange.Pending sync.left sync.right exchange toLeader toFollower

namespace Stage

variable {height : Nat}

theorem climbing (stage : sync.Stage height exchange toLeader toFollower)
    (least_le : least ≤ height) : sync.Climbing least exchange := by
  obtain ⟨refusedTips, other, leads, _⟩ := stage.leads
  obtain ⟨node, branches, peer, follows, _, front⟩ := stage.follows
  exact climbing_of leads follows front least_le stage.inside

/-- The leader takes a message and answers. -/
theorem leader {message : Message} {answers : List Message}
    (stage : sync.Stage height exchange (message :: toLeader) toFollower)
    (least_le : least ≤ height)
    (answered : ∀ refusedTips peer,
      Open sync.leaderPlace sync.leader ⟨[], refusedTips⟩ peer exchange.left →
        peer.startHeight.toNat ≤ sync.leader.storage.bestHeight →
          Open sync.leaderPlace sync.leader ⟨[], refusedTips⟩ (peer.wrote answers)
            (exchange.left.deliver sync.host sync.leaderTurns sync.leaderPlace message)) :
    ∃ next, sync.Advances least exchange next ∧
      sync.Stage height next toLeader (toFollower ++ answers) := by
  obtain ⟨refusedTips, peer, is, low⟩ := stage.leads
  obtain ⟨next, goes, after, right, pending⟩ :=
    takes_left (stage.climbing least_le) stage.pending is (answered refusedTips peer is low) rfl
  exact ⟨next, goes, ⟨refusedTips, peer.wrote answers, after, low⟩, right ▸ stage.follows,
    stage.inside, pending⟩

/-- The follower takes a message and answers. -/
theorem follower {message : Message} {higher : Nat} (Told : List Message → Prop)
    (stage : sync.Stage height exchange toLeader (message :: toFollower))
    (least_le : least ≤ height) (inside : higher ≤ sync.chain.length)
    (answered : ∀ node branches peer,
      Open sync.followerPlace node branches peer exchange.right →
        peer.handshakeComplete = true →
          OnFront sync.host sync.followerTurns sync.chain sync.bodies height node →
            ∃ next answers, Open sync.followerPlace next branches (peer.wrote answers)
                (exchange.right.deliver sync.host sync.followerTurns sync.followerPlace message) ∧
              OnFront sync.host sync.followerTurns sync.chain sync.bodies higher next ∧
              Told answers) :
    ∃ next answers, sync.Advances least exchange next ∧
      sync.Stage higher next (toLeader ++ answers) toFollower ∧ Told answers := by
  obtain ⟨node, branches, peer, is, complete, front⟩ := stage.follows
  obtain ⟨moved, answers, after, higherFront, told⟩ := answered node branches peer is complete front
  obtain ⟨next, goes, left, there, pending⟩ :=
    takes_right (stage.climbing least_le) stage.pending is after rfl
  exact ⟨next, answers, goes, ⟨left ▸ stage.leads,
    ⟨moved, branches, peer.wrote answers, there, complete, higherFront⟩, inside, pending⟩, told⟩

/-- Gossip that the leader ignores is taken in a row. -/
theorem ignore {gossip : List Message}
    (stage : sync.Stage height exchange (gossip ++ toLeader) toFollower) (least_le : least ≤ height)
    (ignored : sync.Silent gossip) :
    ∃ next, sync.Advances least exchange next ∧ sync.Stage height next toLeader toFollower := by
  induction gossip generalizing exchange with
  | nil => exact ⟨exchange, .refl exchange, stage⟩
  | cons message rest ih =>
      obtain ⟨first, others⟩ := List.forall_mem_cons.mp ignored
      obtain ⟨middle, goes, later⟩ := stage.leader least_le
        fun refusedTips peer is low =>
          (Session.wrote_nil peer).symm ▸ first refusedTips peer _ is low
      rw [List.append_nil] at later
      obtain ⟨next, more, final⟩ := ih later others
      exact ⟨next, goes.trans more, final⟩

/-- The follower takes the next blocks of the chain, and what it says of them is ignored. -/
theorem blocks (serves : Serves sync.host sync.leader sync.chain sync.bodies) {count : Nat}
    (stage : sync.Stage height exchange toLeader
      (((sync.bodies.drop height).take count).map blockMessage ++ toFollower))
    (least_le : least ≤ height) (inside : height + count ≤ sync.chain.length) :
    ∃ next gossip, sync.Advances least exchange next ∧
      sync.Stage (height + count) next (toLeader ++ gossip) toFollower ∧ sync.Silent gossip := by
  induction count generalizing height exchange toLeader with
  | zero =>
      rw [List.take_zero] at stage
      exact ⟨exchange, [], .refl exchange, by rwa [List.append_nil], List.forall_mem_nil _⟩
  | succ count ih =>
      have below : height < sync.chain.length := by omega
      have listed := List.getElem?_eq_getElem below
      obtain ⟨body, there, shown⟩ := serves.shows_at listed
      obtain ⟨within, same⟩ := List.getElem?_eq_some_iff.mp there
      rw [List.drop_eq_getElem_cons within, same, List.take_succ_cons, List.map_cons,
        List.cons_append] at stage
      obtain ⟨middle, answers, goes, later, ignored⟩ := stage.follower sync.Silent least_le below
        (by
          intro node branches peer is complete front
          obtain ⟨other, accepted, otherThere, _, joins⟩ :=
            front.joins serves listed exchange.right.turn
          rw [there] at otherThere
          cases otherThere
          exact ⟨_, _, is.block complete shown.sendable joins.passed joins.unstored, joins.front,
            joins.ignored serves⟩)
      obtain ⟨next, gossip, more, final, alike⟩ := ih later (by omega) (by omega)
      refine ⟨next, answers ++ gossip, goes.trans more, ?_,
        List.forall_mem_append.mpr ⟨ignored, alike⟩⟩
      rwa [← List.append_assoc, ← Nat.add_assoc, Nat.add_right_comm]

/-- Addresses are taken in a row. -/
theorem hush {noise : List Message}
    (stage : sync.Stage height exchange toLeader (noise ++ toFollower)) (least_le : least ≤ height)
    (addresses : ∀ message ∈ noise, message.type = .addr) :
    ∃ next, sync.Advances least exchange next ∧ sync.Stage height next toLeader toFollower := by
  induction noise generalizing exchange with
  | nil => exact ⟨exchange, .refl exchange, stage⟩
  | cons message rest ih =>
      obtain ⟨first, others⟩ := List.forall_mem_cons.mp addresses
      obtain ⟨type, payload⟩ := message
      cases first
      obtain ⟨middle, answers, goes, later, rfl⟩ := stage.follower (· = []) least_le stage.inside
        fun node branches peer is _ front =>
          ⟨node, [], (Session.wrote_nil peer).symm ▸ is.addr payload, front, rfl⟩
      rw [List.append_nil] at later
      obtain ⟨next, more, final⟩ := ih later others
      exact ⟨next, goes.trans more, final⟩

/-- The follower asks for all blocks of a batch of headers, and gets them. -/
theorem batch (serves : Serves sync.host sync.leader sync.chain sync.bodies)
    {first : BlockHeader} {rest : List BlockHeader}
    (next : (sync.chain.drop height).take 2000 = first :: rest) (least_le : least ≤ height)
    (stage : sync.Stage height exchange [] [⟨.headers, serializeHeaders (first :: rest)⟩]) :
    ∃ final gossip, sync.Advances least exchange final ∧
      sync.Stage (height + (first :: rest).length) final
        ((headersAnswer (first :: rest)).tail ++ gossip) [] ∧ sync.Silent gossip := by
  obtain ⟨count, counted⟩ : ∃ count, (first :: rest).length = count := ⟨_, rfl⟩
  have size : count = min 2000 (sync.chain.length - height) := by
    rw [← counted, ← next, List.length_take, List.length_drop]
  have shown := List.forall₂_take 2000 (List.forall₂_drop height serves.shown)
  have bodiesLength : (sync.bodies.drop height).length = sync.chain.length - height := by
    rw [List.length_drop, ← serves.shown.length_eq]
  rw [next, List.take_eq_take_min, bodiesLength, ← size] at shown
  have listed : sync.chain[height]? = some first := by
    have head := List.getElem?_take_of_lt (l := sync.chain.drop height) (by decide : 0 < 2000)
    rw [next, List.getElem?_drop] at head
    exact head.symm
  obtain ⟨told, answers, toTold, request, rfl⟩ := stage.follower
    (· = headersAnswer (first :: rest)) least_le stage.inside
    fun node branches peer is _ front => ⟨node, _, is.headers (by omega)
      (front.rooted serves listed) (by
        rw [← next]
        exact (serves.path.isChain.drop height).take 2000)
      (fun header member => front.unstored header (by
        rw [← next] at member
        exact List.mem_of_mem_take member)), front, rfl⟩
  have items : (blockItems (first :: rest)).length ≤ MAX_INV_SIZE := by
    have bound : MAX_INV_SIZE = 50000 := rfl
    rw [blockItems, List.length_map]
    omega
  obtain ⟨served, toServed, sent⟩ := request.leader least_le
    fun refusedTips peer is _ => is.getdata items
  rw [served_blocks shown, ← List.append_nil (List.map blockMessage _)] at sent
  have inside := stage.inside
  obtain ⟨grown, gossip, toGrown, higher, silent⟩ := sent.blocks serves least_le (by omega)
  exact ⟨grown, gossip, (toTold.trans toServed).trans toGrown, counted.symm ▸ higher, silent⟩

/-- From a request of the follower on, the rest of the chain is delivered, and then
nothing is on its way. -/
theorem finishes (serves : Serves sync.host sync.leader sync.chain sync.bodies)
    {locatorHashes : List Digest} {gossip : List Message} {remaining : Nat}
    (remains : sync.chain.length = height + remaining) (few : locatorHashes.length ≤ 500)
    (asks : answerHeight sync.leader.storage locatorHashes = height + 1)
    (ignored : sync.Silent gossip) (least_le : least ≤ height)
    (stage : sync.Stage height exchange
      (⟨.getheaders, serializeGetHeaders locatorHashes Digest.zero⟩ :: gossip) []) :
    ∃ final, sync.Advances least exchange final ∧
      sync.Stage sync.chain.length final [] [] := by
  induction remaining using Nat.strong_induction_on
    generalizing height exchange locatorHashes gossip with
  | _ remaining ih =>
      -- The leader answers with a batch of headers, and ignores the rest.
      obtain ⟨asked, toAnswer, answered⟩ := stage.leader least_le
        fun refusedTips peer is _ => is.getheaders few (serves.handleGetHeaders_eq asks)
      rw [← List.append_nil gossip] at answered
      obtain ⟨heard, toHeard, waiting⟩ := answered.ignore least_le ignored
      cases batch : (sync.chain.drop height).take 2000 with
      | nil =>
          rw [batch] at waiting
          have whole : height = sync.chain.length := by
            rcases List.take_eq_nil_iff.mp batch with impossible | emptyShort
            · cases impossible
            · have ends := List.drop_eq_nil_iff.mp emptyShort
              omega
          exact ⟨heard, toAnswer.trans toHeard, whole ▸ waiting⟩
      | cons first rest =>
          rw [batch] at waiting
          have counted : (first :: rest).length = min 2000 remaining := by
            rw [← batch, List.length_take, List.length_drop, remains, Nat.add_sub_cancel_left]
          obtain ⟨grown, gossip', toGrown, higher, silent⟩ := waiting.batch serves batch least_le
          have way := (toAnswer.trans toHeard).trans toGrown
          rw [headersAnswer, List.tail_cons] at higher
          by_cases full : (first :: rest).length = 2000
          · -- There may be more: the last header of the batch is the next locator.
            obtain ⟨last, isLast⟩ : ∃ last, sync.chain[height + 1999]? = some last :=
              ⟨_, List.getElem?_eq_getElem (by omega)⟩
            have ends : (first :: rest).getLast? = some last := by
              rw [List.getLast?_eq_getElem?, full, ← batch,
                List.getElem?_take_of_lt (by decide), List.getElem?_drop, isLast]
            rw [if_pos full, ends, List.singleton_append] at higher
            have next : answerHeight sync.leader.storage [last.hash] =
                height + (first :: rest).length + 1 := by
              rw [serves.answerHeight_eq isLast rfl]
              omega
            have one : [last.hash].length ≤ 500 := Nat.le_of_ble_eq_true rfl
            obtain ⟨final, toFinal, whole⟩ := ih (remaining - 2000) (by omega) (by omega) one next
              silent (by omega) higher
            exact ⟨final, way.trans toFinal, whole⟩
          · have whole : height + (first :: rest).length = sync.chain.length := by omega
            rw [if_neg full, List.nil_append, ← List.append_nil gossip'] at higher
            have still : least ≤ height + (first :: rest).length := by omega
            obtain ⟨final, toFinal, quiet⟩ := higher.ignore still silent
            exact ⟨final, way.trans toFinal, whole ▸ quiet⟩

end Stage

/-! ## From the first message on -/

/-- Two servers that are about to connect. One of them has the whole chain and holds no
blocks of its peers, the other one has the front of it; both know their own height. -/
structure Meets (sync : Sync) (leader follower : P2PServer) (addr addr' : PeerAddr)
    (height : Nat) : Prop where
  serves : Serves sync.host sync.leader sync.chain sync.bodies
  front : OnFront sync.host sync.followerTurns sync.chain sync.bodies height follower.node
  inside : height ≤ sync.chain.length
  small : sync.chain.length < 2 ^ 32
  isLeader : leader.node = sync.leader
  idle : leader.branches.heldBlocks = []
  leaderHeight : leader.bestHeight = leader.node.storage.bestHeight
  followerHeight : follower.bestHeight = follower.node.storage.bestHeight
  leaderPlace : leader.peers.length = sync.leaderPlace
  followerPlace : follower.peers.length = sync.followerPlace
  foreign : ∀ number, (sync.leaderTurns number).isOwnAddress addr.sinAddr = false
  foreign' : ∀ number, (sync.followerTurns number).isOwnAddress addr'.sinAddr = false

/-- What the two servers tell each other of their heights. -/
theorem Meets.heights {leader follower : P2PServer} {addr addr' : PeerAddr} {height : Nat}
    (meets : sync.Meets leader follower addr addr' height) :
    (UInt32.ofNat leader.bestHeight).toNat = sync.chain.length ∧
      (UInt32.ofNat follower.bestHeight).toNat = height ∧
      follower.node.storage.bestHeight = height ∧
      sync.leader.storage.bestHeight = sync.chain.length := by
  have inside := meets.inside
  have small := meets.small
  have whole : sync.leader.storage.bestHeight = sync.chain.length := meets.serves.path.bestHeight
  have part : follower.node.storage.bestHeight = height := by
    obtain ⟨short, path, same⟩ := meets.front.path
    have lengths := congrArg List.length same
    rw [List.length_map, List.length_take, List.length_map] at lengths
    have bestHeight : follower.node.storage.bestHeight = short.length := path.bestHeight
    omega
  refine ⟨?_, ?_, part, whole⟩
  · rw [meets.leaderHeight, meets.isLeader, whole, UInt32.toNat_ofNat']
    exact Nat.mod_eq_of_lt small
  · rw [meets.followerHeight, part, UInt32.toNat_ofNat']
    exact Nat.mod_eq_of_lt (by omega)

/-- The handshake ends with a request of the follower, when it is lower. -/
theorem Meets.opens {leader follower : P2PServer} {addr addr' : PeerAddr} {height : Nat}
    (meets : sync.Meets leader follower addr addr' height) (turn turn' : Turn)
    (inbound inbound' : Bool) :
    ∃ next, sync.Advances height
        (Exchange.start (leader.addPeer turn addr inbound none)
          (follower.addPeer turn' addr' inbound' none)) next ∧
      sync.Stage height next
        (if height < sync.chain.length then [Open.headersRequest follower.node.storage] else [])
        [] := by
  let first := Exchange.start (leader.addPeer turn addr inbound none)
    (follower.addPeer turn' addr' inbound' none)
  obtain ⟨refusedTips, held⟩ : ∃ refusedTips, leader.branches = ⟨[], refusedTips⟩ :=
    ⟨_, congrArg (Branches.mk · leader.branches.refusedTips) meets.idle⟩
  have leads : Open sync.leaderPlace sync.leader ⟨[], refusedTips⟩
      (Open.newcomer turn leader addr inbound) first.left := by
    rw [← meets.leaderPlace, ← meets.isLeader, ← held]
    exact Open.of_addPeer turn addr inbound meets.leaderHeight
  have follows : Open sync.followerPlace follower.node follower.branches
      (Open.newcomer turn' follower addr' inbound') first.right := by
    rw [← meets.followerPlace]
    exact Open.of_addPeer turn' addr' inbound' meets.followerHeight
  have begins := @Exchange.Pending.start _ _ _ _ sync.left sync.right
    (leader.addPeer turn addr inbound none) (follower.addPeer turn' addr' inbound' none)
  have ours : sync.left.sent (leader.addPeer turn addr inbound none) =
      [⟨.version, leader.versionPayload turn (newPeer addr inbound none)⟩] := leads.written
  have theirs : sync.right.sent (follower.addPeer turn' addr' inbound' none) =
      [⟨.version, follower.versionPayload turn' (newPeer addr' inbound' none)⟩] := follows.written
  rw [ours, theirs] at begins
  have climbs : ∀ {exchange : Exchange P2PServer P2PServer} {held branches : Branches}
      {other peer : Session}, Open sync.leaderPlace sync.leader held other exchange.left →
        Open sync.followerPlace follower.node branches peer exchange.right →
          sync.Climbing height exchange :=
    fun leads follows => climbing_of leads follows meets.front (Nat.le_refl height) meets.inside
  -- The versions.
  obtain ⟨one, toOne, leads, right, begins⟩ := takes_left (climbs leads follows) begins leads
    (leads.version (Open.decode_versionPayload turn' follower _) rfl rfl rfl
      fun _ => meets.foreign _)
    rfl
  rw [← right] at follows
  obtain ⟨two, toTwo, left, follows, begins⟩ := takes_right (climbs leads follows) begins follows
    (follows.version (Open.decode_versionPayload turn leader _) rfl rfl rfl
      fun _ => meets.foreign' _)
    rfl
  rw [← left] at leads
  -- The veracks.
  obtain ⟨noise, addresses, done⟩ := follows.verack rfl rfl []
  obtain ⟨three, toThree, left, follows, begins⟩ := takes_right (climbs leads follows) begins
    follows done rfl
  rw [← left] at leads
  obtain ⟨noise', addresses', done⟩ := leads.verack rfl rfl []
  obtain ⟨four, toFour, leads, right, begins⟩ := takes_left (climbs leads follows) begins leads
    done rfl
  rw [← right] at follows
  have heights := meets.heights
  have begins : Exchange.Pending sync.left sync.right four
      (noise ++ if (UInt32.ofNat leader.bestHeight).toNat > follower.node.storage.bestHeight then
        [Open.headersRequest follower.node.storage] else [])
      (noise' ++ if (UInt32.ofNat follower.bestHeight).toNat > sync.leader.storage.bestHeight then
        [Open.headersRequest sync.leader.storage] else []) := begins
  have low : (UInt32.ofNat follower.bestHeight).toNat ≤ sync.leader.storage.bestHeight := by
    rw [heights.2.1, heights.2.2.2]
    exact meets.inside
  rw [if_neg (Nat.not_lt.mpr low), heights.1, heights.2.2.1] at begins
  have stage : sync.Stage height four _ _ :=
    ⟨⟨_, _, leads, low⟩, ⟨_, _, _, follows, rfl, meets.front⟩, meets.inside, begins⟩
  obtain ⟨five, toFive, stage⟩ := stage.hush (Nat.le_refl height) addresses'
  obtain ⟨six, toSix, stage⟩ := stage.ignore (Nat.le_refl height) (by
    rintro ⟨type, payload⟩ member refusedTips peer server is _
    cases addresses _ member
    exact is.addr payload)
  exact ⟨six, ((((toOne.trans toTwo).trans toThree).trans toFour).trans toFive).trans toSix, stage⟩

end Sync

/-- **A node catches up.** When two servers connect and the active chain of the one is the
front of that of the other, then in every order of deliveries there are boundedly many of
them, the connection stays open, the longer chain stays as it is and the shorter one only
climbs along it. When nothing is on its way any more, the two chains are the same. -/
theorem catch_up {sync : Sync} {leader follower : P2PServer} {addr addr' : PeerAddr}
    {height : Nat} (meets : sync.Meets leader follower addr addr' height) (turn turn' : Turn)
    (inbound inbound' : Bool) :
    ∃ bound, ∀ (calls : List Side) (log : List Unit) (exchange : Exchange P2PServer P2PServer),
      (Exchange.machine sync.left sync.right).Runs (fun _ _ => True)
          (Exchange.start (leader.addPeer turn addr inbound none)
            (follower.addPeer turn' addr' inbound' none)) calls log exchange →
        calls.length ≤ bound ∧ sync.Climbing height exchange ∧
          ((∀ side, Exchange.deliver sync.left sync.right exchange side = none) →
            exchange.right.node.storage.heightToHash = sync.leader.storage.heightToHash ∧
              exchange.right.node.storage.bestBlockHash = sync.leader.storage.bestBlockHash) := by
  obtain ⟨opened, toOpened, stage⟩ := meets.opens turn turn' inbound inbound'
  obtain ⟨final, toFinal, whole⟩ : ∃ final, sync.Advances height opened final ∧
      sync.Stage sync.chain.length final [] [] := by
    have inside := meets.inside
    rcases Nat.lt_or_ge height sync.chain.length with lower | level
    · rw [if_pos lower] at stage
      exact stage.finishes meets.serves (Nat.add_sub_cancel' inside).symm
        (length_getBlockLocatorHashes _) (meets.serves.answerHeight_front meets.front inside)
        (List.forall_mem_nil _) (Nat.le_refl height)
    · rw [if_neg (Nat.not_lt.mpr level)] at stage
      exact ⟨opened, .refl opened, Nat.le_antisymm inside level ▸ stage⟩
  obtain ⟨all, events, run⟩ := toOpened.trans toFinal
  have quiet := whole.pending.quiet
  have good := whole.climbing meets.inside
  refine ⟨all.length, fun calls log exchange other => ?_⟩
  obtain ⟨bounded, ends⟩ := Exchange.settles run quiet other
  obtain ⟨⟨passed, climbing, left⟩, reached, climbed, right⟩ := Exchange.passes run good quiet other
  refine ⟨bounded, ⟨?_, ?_, ?_, ?_⟩, fun stuck => ?_⟩
  · rw [left]
    exact climbing.kept
  · rw [left]
    exact climbing.leftOpen
  · rw [right]
    exact climbed.rightOpen
  · rw [right]
    exact climbed.path
  · obtain ⟨node, branches, peer, follows, _, front⟩ := whole.follows
    obtain ⟨short, path, same⟩ := front.path
    rw [List.take_of_length_le (List.length_map _).le] at same
    rw [ends stuck, follows.node_eq]
    exact path.alike meets.serves.path same

/-! ## Two blocks behind -/

/-- A server on a node, before its first connection. -/
def quietServer (node : Node) : P2PServer :=
  ⟨node, ⟨[], []⟩, AddrMan.empty, [], node.storage.bestHeight, 0⟩

theorem quietServer_height (node : Node) :
    (quietServer node).bestHeight = (quietServer node).node.storage.bestHeight := rfl

def openingHeader : BlockHeader := openingDraft.header openingTxid openingHash

def spendingHeader : BlockHeader := spendingDraft.header spendingBlock.root spendingHash

/-- The acceptance of the first block. -/
def openingAccepted : Accepted storedHost :=
  ⟨sampleMoment, false, Node.empty fun _ => none, openingBlock.json, [], openingChecked,
    opening_passed [] _⟩

theorem openingAccepted_portable : openingAccepted.Portable :=
  ⟨NameTable.sound_empty, List.forall_mem_nil _, fun _ => List.forall_mem_nil _⟩

theorem openingAccepted_beside : openingAccepted.Beside (Node.empty fun _ => none) :=
  ⟨.refl _, rfl, fun _ _ => rfl, fun _ _ _ _ _ _ _ _ _ => rfl⟩

theorem openingAccepted_inTime :
    openingAccepted.checked.draft.fields.timestamp ≤ sampleMoment.now + 120 := by
  change openingChecked.draft.fields.timestamp ≤ _
  decide +kernel

/-- The node with the spend leads, an empty one follows. -/
def spendingSync : Sync :=
  ⟨storedHost, fun _ => openingTurn, fun _ => openingTurn, 0, 0, spentNode storedHost,
    [openingHeader, spendingHeader], [openingAccepted.stored, spendingAccepted.stored]⟩

theorem openedNode_path : Path (openedNode storedHost).storage.chainIndex [openingHeader] := by
  have empty : Path (Node.empty fun _ => none).storage.chainIndex [] := Path.of_reset rfl rfl rfl
  rw [storedHost_opened]
  exact empty.connect (acceptance_of_passed rfl (opening_passed [] _)) rfl

theorem openedNode_unstored : (openedNode storedHost).storage.blockIndex spendingHash = none := by
  rw [storedHost_opened]
  decide +kernel

theorem spentNode_path :
    Path (spentNode storedHost).storage.chainIndex [openingHeader, spendingHeader] := by
  rw [spentNode_eq]
  exact openedNode_path.connect (acceptance_of_passed rfl spending_passed) openedNode_unstored

/-- An empty node accepts the two blocks as they are stored. -/
theorem spendingSync_takes : TakesOver storedHost (fun _ => openingTurn) (Node.empty fun _ => none)
    [openingAccepted.stored, spendingAccepted.stored] := by
  obtain ⟨first, flags, one, stored, next⟩ :=
    openingAccepted_portable.connected openingAccepted_beside openingAccepted_inTime rfl
  intro number
  refine ⟨first, one, stored ▸ storedHost_parse_opening, fun number => ?_⟩
  change ∃ accepted, connection storedHost sampleMoment false
    (rpcSubmitblock storedHost sampleMoment
    false (Node.empty fun _ => none) openingAccepted.stored).1 _ = [accepted] ∧ _
  rw [next]
  have beside : spendingAccepted.Beside (connectBlock storedHost sampleMoment false
      (Node.empty fun _ => none) ⟨openingAccepted.relayed, openingAccepted.checked.root,
        openingAccepted.hash, openingAccepted.stored, flags⟩) := by
    refine spendingAccepted_beside ?_ ?_
    · rw [storedHost_opened]
      exact ⟨rfl, rfl, rfl, fun _ _ => rfl, fun _ => rfl, rfl⟩
    · rw [storedHost_opened]
      rfl
  obtain ⟨second, _, other, again, _⟩ :=
    spendingAccepted_portable.connected beside spendingAccepted_inTime rfl
  exact ⟨second, other, again ▸ storedHost_parse_spending, trivial⟩

private theorem opening_read :
    ((spentNode storedHost).storage.blockIndex openingHash).bind
        (spentNode storedHost).storage.readBlock = some openingAccepted.stored.dump.bytes := by
  rw [spentNode_eq, storedHost_opened]
  rfl

private theorem spending_read :
    ((spentNode storedHost).storage.blockIndex spendingHash).bind
        (spentNode storedHost).storage.readBlock = some spendingAccepted.stored.dump.bytes := by
  rw [spentNode_eq, storedHost_opened]
  rfl

theorem spendingSync_meets : spendingSync.Meets (quietServer (spentNode storedHost))
    (quietServer (Node.empty fun _ => none)) noAddr noAddr 0 := by
  have empty : Path (Node.empty fun _ => none).storage.chainIndex [] := Path.of_reset rfl rfl rfl
  have first : Shown storedHost (spentNode storedHost).storage openingHeader
      openingAccepted.stored :=
    ⟨⟨openingAccepted.stored_isObject, storedHost_parse_opening, openingAccepted.passes.fits⟩,
      openingAccepted.stored_text? _ _ rfl, opening_read, by decide⟩
  have second : Shown storedHost (spentNode storedHost).storage spendingHeader
      spendingAccepted.stored :=
    ⟨⟨spendingAccepted.stored_isObject, storedHost_parse_spending, spendingAccepted.passes.fits⟩,
      spendingAccepted.stored_text? _ _ rfl, spending_read, by decide⟩
  exact
    { serves := ⟨spentNode_path, .cons first (.cons second .nil)⟩
      front := ⟨⟨[], empty, rfl⟩, fun _ _ => rfl, spendingSync_takes⟩
      inside := Nat.zero_le 2
      small := by decide
      isLeader := rfl
      idle := rfl
      leaderHeight := quietServer_height _
      followerHeight := quietServer_height _
      leaderPlace := rfl
      followerPlace := rfl
      foreign := fun _ => rfl
      foreign' := fun _ => rfl }

/-- An empty node gets the two blocks. -/
theorem catch_up_spending :
    ∃ (sync : Sync) (leader follower : P2PServer) (turn : Turn),
      sync.Meets leader follower noAddr noAddr 0 ∧ sync.chain.length = 2 ∧
      ∃ bound, ∀ (calls : List Side) (log : List Unit) (exchange : Exchange P2PServer P2PServer),
        (Exchange.machine sync.left sync.right).Runs (fun _ _ => True)
            (Exchange.start (leader.addPeer turn noAddr true none)
              (follower.addPeer turn noAddr false none)) calls log exchange →
          calls.length ≤ bound ∧ sync.Climbing 0 exchange ∧
            ((∀ side, Exchange.deliver sync.left sync.right exchange side = none) →
              exchange.right.node.storage.heightToHash = sync.leader.storage.heightToHash ∧
                exchange.right.node.storage.bestBlockHash = sync.leader.storage.bestBlockHash) :=
  ⟨spendingSync, _, _, openingTurn, spendingSync_meets, rfl,
    catch_up spendingSync_meets openingTurn openingTurn true false⟩

end PiSecure
