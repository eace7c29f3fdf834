import PiSecure.General.Run
import PiSecure.Model.Transaction

/-! # Messages of a WebSocket

`LWS_CALLBACK_RECEIVE` of `ws_server.cpp`: how the chunks of a connection are put
together, up to the parser. A buffer that is not allocated yet is an empty one.
-/

namespace PiSecure

/-- `kMaxWsMessage`. -/
def kMaxWsMessage : Nat := kMaxBlockBytes + 4096

/-- Whether bytes stand somewhere in others. -/
def bytesOccur (pattern : Bytes) : Bytes → Bool
  | [] => pattern.isEmpty
  | byte :: rest => pattern.isPrefixOf (byte :: rest) || bytesOccur pattern rest

/-- `head_method`. -/
def headMethod (msg : Bytes) (name : String) : Bool :=
  let head := msg.take 512
  bytesOccur (Text.bytes ("\"method\":\"".toList ++ name.toList ++ "\"".toList)) head ||
    bytesOccur (Text.bytes ("\"method\": \"".toList ++ name.toList ++ "\"".toList)) head

/-- `limit_reason`. -/
def limitReason (msg : Bytes) : String :=
  if headMethod msg "sendtransaction" ∨ ¬headMethod msg "submitblock" then "tx too large"
  else "block too large"

/-- What a message that is put together is refused for before it is parsed. -/
def sizeReason (msg : Bytes) : Option String :=
  let submit := headMethod msg "submitblock"
  let spend := headMethod msg "sendtransaction"
  if (spend ∨ ¬submit) ∧ msg.length > kMaxTxJsonBytes + 1024 then some "tx too large"
  else if submit ∧ msg.length > kMaxWsMessage then some "block too large"
  else none

/-- A chunk, and whether it is the last one of its message. -/
structure WsChunk where
  bytes : Bytes
  final : Bool

/-- `WsConnData`, as far as receiving goes. -/
structure WsConnData where
  rx : Bytes
  skip : Bool

/-- What a chunk leads to: an error for a message over the limit, or a message for the size
and parse stage. -/
inductive WsEvent where
  | limit (why : String)
  | message (msg : Bytes)

/-- The message that reaches the parser. -/
def WsEvent.parsed : WsEvent → Option Bytes
  | .limit _ => none
  | .message msg => if (sizeReason msg).isSome then none else some msg

namespace WsConnData

/-- A connection after `LWS_CALLBACK_ESTABLISHED`. -/
def established : WsConnData := ⟨[], false⟩

/-- `LWS_CALLBACK_RECEIVE`. -/
def receive (ud : WsConnData) (chunk : WsChunk) : WsConnData × List WsEvent :=
  if ud.skip then
    if chunk.final then (⟨[], false⟩, []) else (ud, [])
  else if ud.rx.length + chunk.bytes.length > kMaxWsMessage then
    (⟨[], !chunk.final⟩, [.limit (limitReason ud.rx)])
  else if ¬chunk.final then (⟨ud.rx ++ chunk.bytes, ud.skip⟩, [])
  else (⟨[], ud.skip⟩, [.message (ud.rx ++ chunk.bytes)])

/-- A connection as a machine over the chunks that it receives. -/
def machine : Machine WsConnData WsChunk WsEvent where
  step ud chunk := some (ud.receive chunk).1
  events ud chunk := (ud.receive chunk).2

end WsConnData

end PiSecure
