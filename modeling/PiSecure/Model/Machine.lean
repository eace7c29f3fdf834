import PiSecure.General.Run
import PiSecure.Model.Peer

/-! # The node as a machine

Every way in which the state of a node changes, as the calls of one machine.
Its events are the blocks that were connected: those that passed every check
and were not stored before.
-/

namespace PiSecure

/-- A block that passed every check of `rpc_submitblock` on a node. -/
structure Accepted (host : Host) where
  moment : Moment
  localPolicy : Bool
  node : Node
  block : Json
  names : NameTable
  checked : Checked
  passed : checkBlock host moment localPolicy node block = (names, .ok checked)

namespace Accepted

variable {host : Host} (accepted : Accepted host)

/-- The hash of the block. -/
def hash : Digest := accepted.checked.digest

/-- The height of the block. -/
def height : Nat := accepted.checked.draft.fields.height

/-- The hash of the parent. -/
def prev : Digest := accepted.checked.draft.prev

/-- The coinbase of the block. -/
def cb : Tx := accepted.checked.draft.cb

/-- The transactions of the block. -/
def txs : List Tx := accepted.checked.draft.txs

/-- The header of the block. -/
def header : BlockHeader :=
  accepted.checked.draft.header accepted.checked.root accepted.checked.digest

end Accepted

/-- The acceptance of a submission, when every check passes. -/
def acceptance (host : Host) (moment : Moment) (localPolicy : Bool) (node : Node) (params : Json) :
    Option (Accepted host) :=
  match asObjectParam host params with
  | .object (member :: members) =>
      match passed : checkBlock host moment localPolicy node (.object (member :: members)) with
      | (names, .ok checked) =>
          some ⟨moment, localPolicy, node, .object (member :: members), names, checked, passed⟩
      | (_, .error _) => none
  | _ => none

/-- The block that a submission connects: one that is not stored yet. -/
def connection (host : Host) (moment : Moment) (localPolicy : Bool) (node : Node)
    (params : Json) : List (Accepted host) :=
  match acceptance host moment localPolicy node params with
  | none => []
  | some accepted => if (node.storage.blockIndex accepted.hash).isSome then [] else [accepted]

/-- The blocks that `adoptBlocks` connects. -/
def adoptConnections (host : Host) (moments : Nat → Moment) :
    Nat → Node → List Json → List (Accepted host)
  | _, _, [] => []
  | turn, node, block :: rest =>
      connection host (moments turn) false node block ++
        match rpcSubmitblock host (moments turn) false node block with
        | (next, .accepted _ _ _) => adoptConnections host moments (turn + 1) next rest
        | (_, .refused _) => []

/-- The blocks that an adoption connects. -/
def adoptionConnections (host : Host) (moments : Nat → Moment) (node : Node) (ancestor : Digest)
    (blocks : List Json) : List (Accepted host) :=
  match adoptionStart host (moments 0) node ancestor blocks with
  | .ok (based, .done) => adoptConnections host moments 1 based blocks
  | _ => []

/-- A call of the node: an RPC, a message of a peer, a restart, or a change of
the key files and the names file by the operator. -/
inductive Call where
  | sendTransaction (moment : Moment) (params : Json)
  | getBlockTemplate (moment : Moment) (params : Json)
  | submitBlock (moment : Moment) (localPolicy : Bool) (params : Json)
  | adoptPeerChain (moments : Nat → Moment) (ancestor : Digest) (blocks : List Json)
  | replayChain (moment : Moment) (tip : Digest)
  | peerBlock (moments : Nat → Moment) (held : Option (Digest × List Json)) (payload : Bytes)
  | peerTx (payload : Bytes)
  | editFiles (wallets : Wallets) (namesFile : Option Json)
  | restart (moment : Moment)

/-- The node after a call. A node whose chain cannot be restored does not start. -/
def stepNode (host : Host) (node : Node) : Call → Option Node
  | .sendTransaction moment params => some (rpcSendtransaction host moment node params).1
  | .getBlockTemplate moment params => some (rpcGetblocktemplate host moment node params).1
  | .submitBlock moment localPolicy params =>
      some (rpcSubmitblock host moment localPolicy node params).1
  | .adoptPeerChain moments ancestor blocks =>
      some (rpcAdoptPeerChain host moments node ancestor blocks).1
  | .replayChain moment tip => some (rpcReplayChain host moment node tip).1
  | .peerBlock moments held payload => some (handleBlock host moments held node payload)
  | .peerTx payload => some (handleTx host node payload)
  | .editFiles wallets namesFile => some { node with wallets := wallets, namesFile := namesFile }
  | .restart moment =>
      match restart host moment node with
      | (next, .done) => some next
      | _ => none

/-- The blocks that the JSON branch of `handleBlock` connects. -/
def jsonBlockConnections (host : Host) (moments : Nat → Moment)
    (held : Option (Digest × List Json)) (node : Node) (block : Json) : List (Accepted host) :=
  connection host (moments 0) false node block ++
    match rpcSubmitblock host (moments 0) false node block, held with
    | (next, .refused (.reason reason)), some (ancestor, blocks) =>
        if offTip reason ∧ (block.valueOr "hash" Json.asText? []).isSome then
          adoptionConnections host (fun turn => moments (turn + 1)) next ancestor blocks
        else []
    | _, _ => []

/-- The blocks that a call connects. -/
def connections (host : Host) (node : Node) : Call → List (Accepted host)
  | .submitBlock moment localPolicy params => connection host moment localPolicy node params
  | .adoptPeerChain moments ancestor blocks =>
      adoptionConnections host moments node ancestor blocks
  | .peerBlock moments held payload =>
      if isJsonBody payload ∧ payload.length ≤ kMaxBlockBytes then
        match host.parse payload with
        | none => []
        | some block => jsonBlockConnections host moments held node block
      else []
  | _ => []

/-- The machine of a node. -/
def nodeMachine (host : Host) : Machine Node Call (Accepted host) :=
  ⟨stepNode host, connections host⟩

end PiSecure
