import PiSecure.General.Intake
import PiSecure.Model.Wire

/-! # Frames of a connection

`Peer::sendMessage` and `P2PServer::processMessages` of `p2p.cpp`: how messages
are framed, and how the frames are found in what `recv` returns. What a handler
does to the server and the peer is left open; it may close the connection.
-/

namespace PiSecure

inductive P2PMsgType where
  | version | verack | addr | inv | getdata | headers | getheaders | block | tx | ping | pong
  | reject | getblocks | threatAlert
deriving DecidableEq

/-- The types in the order of their numbers. -/
def P2PMsgType.all : List P2PMsgType :=
  [.version, .verack, .addr, .inv, .getdata, .headers, .getheaders, .block, .tx, .ping, .pong,
    .reject, .getblocks, .threatAlert]

def P2PMsgType.toByte : P2PMsgType → UInt8
  | .version => 0
  | .verack => 1
  | .addr => 2
  | .inv => 3
  | .getdata => 4
  | .headers => 5
  | .getheaders => 6
  | .block => 7
  | .tx => 8
  | .ping => 9
  | .pong => 10
  | .reject => 11
  | .getblocks => 12
  | .threatAlert => 13

def P2PMsgType.ofByte? (type : UInt8) : Option P2PMsgType :=
  P2PMsgType.all.find? fun known => known.toByte == type

/-- The largest payload. -/
def kMaxMessageBytes : Nat := 2 * 1024 * 1024

structure Message where
  type : P2PMsgType
  payload : Bytes
deriving DecidableEq

/-- `Peer::sendMessage`: the type, the length as a word, and the payload. -/
def sendMessage (message : Message) : Bytes :=
  message.type.toByte :: u32Bytes message.payload.length ++ message.payload

/-- Why the first five bytes of a frame end the connection. -/
def rejection (type : UInt8) (len : Nat) : Option String :=
  if type > P2PMsgType.threatAlert.toByte then some "Unknown message type"
  else if len > kMaxMessageBytes then some "Message too large"
  else if type = P2PMsgType.block.toByte ∧ len > kMaxBlockBytes then some "block too large"
  else if type = P2PMsgType.tx.toByte ∧ len > kMaxTxJsonBytes then some "tx too large"
  else none

/-- What the message handlers do to the server and the peer. A handler may close
the connection for a reason, and the peer may be banned afterwards. -/
structure Handlers (Server : Type) where
  handle : Server → Message → Server × Option String
  shouldBan : Server → Bool
  ban : Server → Server

/-- A connection: the server with all that the handlers change, what is received
and not parsed yet, why the connection is closed, and the messages that were
dispatched. -/
structure Peer (Server : Type) where
  server : Server
  recvBuffer : Bytes
  closed : Option String
  dispatched : List Message
deriving DecidableEq

variable {Server : Type}

namespace Peer

/-- A new connection. -/
def start (server : Server) : Peer Server := ⟨server, [], none, []⟩

/-- `disconnectPeer`, with the buffer cleared. -/
def disconnect (peer : Peer Server) (reason : String) : Peer Server :=
  { peer with closed := some reason, recvBuffer := [] }

/-- Received bytes join the buffer of an open connection. -/
def append (peer : Peer Server) (bytes : Bytes) : Peer Server :=
  if peer.closed.isSome then peer else { peer with recvBuffer := peer.recvBuffer ++ bytes }

end Peer

/-- A message goes to its handler. Rejections and block requests have none. -/
def dispatch (handlers : Handlers Server) (peer : Peer Server) (message : Message) :
    Peer Server :=
  let logged := { peer with dispatched := peer.dispatched ++ [message] }
  if message.type = .reject ∨ message.type = .getblocks then logged
  else
    let handled := handlers.handle peer.server message
    { logged with server := handled.1, closed := handled.2 }

/-- What follows the handler of a message: a closed connection drops its buffer,
and so does that of a peer to ban. -/
def afterDispatch (handlers : Handlers Server) (peer : Peer Server) : Peer Server :=
  if peer.closed.isSome then { peer with recvBuffer := [] }
  else if handlers.shouldBan peer.server then
    { peer with server := handlers.ban peer.server }.disconnect "Banned"
  else peer

/-- One pass of the loop in `processMessages`; nothing when the loop ends or
waits for more data. -/
def processFrame (handlers : Handlers Server) (peer : Peer Server) : Option (Peer Server) :=
  if peer.closed.isSome then none
  else
    match peer.recvBuffer with
    | type :: len0 :: len1 :: len2 :: len3 :: rest =>
        let len := readLe [len0, len1, len2, len3]
        match rejection type len with
        | some reason => some (peer.disconnect reason)
        | none =>
            if rest.length < len then none
            else
              match P2PMsgType.ofByte? type with
              | none => some (peer.disconnect "Unknown message type")
              | some msgType =>
                  some (afterDispatch handlers
                    (dispatch handlers { peer with recvBuffer := rest.drop len }
                      ⟨msgType, rest.take len⟩))
    | _ => none

/-- The loop in `processMessages`. -/
def processFrames (handlers : Handlers Server) : Nat → Peer Server → Peer Server
  | 0, peer => peer
  | fuel + 1, peer =>
      match processFrame handlers peer with
      | none => peer
      | some next => processFrames handlers fuel next

/-- The bytes that one `recv` returns, at most as many as its buffer holds. -/
structure Chunk where
  bytes : Bytes
  nonempty : bytes ≠ []
  bounded : bytes.length ≤ 4096

/-- What `recv` has: nothing yet, bytes, or the end of the stream. -/
inductive Received where
  | pending
  | chunk (chunk : Chunk)
  | ended

/-- `processMessages`. Every frame takes five bytes at least, so the loop needs no
more passes than there are bytes. -/
def processMessages (handlers : Handlers Server) (peer : Peer Server) (received : Received) :
    Peer Server :=
  if peer.closed.isSome then peer
  else
    match received with
    | .pending => peer
    | .ended => { peer with closed := some "Connection closed" }
    | .chunk chunk =>
        let filled := peer.append chunk.bytes
        processFrames handlers filled.recvBuffer.length filled

/-- A connection on which these chunks arrive. -/
def receive (handlers : Handlers Server) (peer : Peer Server) (chunks : List Chunk) :
    Peer Server :=
  chunks.foldl (fun peer chunk => processMessages handlers peer (.chunk chunk)) peer

end PiSecure
