import PiSecure.General.Reading
import PiSecure.Model.Peer

/-! # Messages between peers

`MessageSerializer` of `p2p.cpp`: how the payloads of the peer messages are
written, and how they are read back. The readers keep an offset and do not check
it by themselves, so a decoder has no result when it reads past its payload.
What a decoder returns is `none` when it answers `false`.
-/

namespace PiSecure

open Reading

def PROTOCOL_VERSION : UInt32 := 31400

def MAX_INV_SIZE : Nat := 50000

/-- The size of a header without its height. -/
def kCompactHeaderBytes : Nat := 4 + 32 + 32 + 8 + 4 + 8 + 32

def AF_INET : UInt16 := 2

structure InvVect where
  type : UInt32
  hash : Digest
deriving DecidableEq

/-- A peer address; of the socket address the family, the address and the port
in the byte order of the network. -/
structure PeerAddr where
  sinFamily : UInt16
  sinAddr : UInt32
  sinPort : UInt16
  lastSeen : UInt64
  services : UInt32
  failures : Int32
deriving DecidableEq

/-- An alert about a peer; its confidence is kept as the number of millionths
that is sent. -/
structure ThreatAlert where
  threatType : Bytes
  severity : Bytes
  sourceIP : UInt32
  timestamp : UInt64
  details : Bytes
  reportingNodeId : Bytes
  confidenceFixed : Option UInt64
deriving DecidableEq

/-- What `deserializeVersion` reads; the start height is left alone when the
payload ends before it. -/
structure VersionMessage where
  version : UInt32
  services : UInt32
  timestamp : UInt64
  userAgent : Bytes
  startHeight : Option UInt32
deriving DecidableEq

/-! ## Writing -/

def writeUint32 (value : UInt32) : Bytes := u32Bytes value.toNat

def writeUint64 (value : UInt64) : Bytes := u64Bytes value.toNat

/-- `writeVarInt` of a value below `2 ^ 64`. -/
def writeVarInt (value : Nat) : Bytes :=
  if value < 0xFD then [UInt8.ofNat value]
  else if value ≤ 0xFFFF then 0xFD :: u16Bytes value
  else if value ≤ 0xFFFFFFFF then 0xFE :: u32Bytes value
  else 0xFF :: u64Bytes value

def writeString (text : Bytes) : Bytes := writeVarInt text.length ++ text

def serializeVersion (version services : UInt32) (timestamp : UInt64)
    (addrRecv addrFrom : PeerAddr) (nonce : UInt64) (userAgent : Bytes) (startHeight : UInt32) :
    Bytes :=
  writeUint32 version ++ writeUint64 services.toUInt64 ++ writeUint64 timestamp ++
    writeUint64 addrRecv.services.toUInt64 ++ writeUint64 addrFrom.services.toUInt64 ++
    writeUint64 nonce ++ writeString userAgent ++ writeUint32 startHeight

def serializePeerAddr (addr : PeerAddr) : Bytes :=
  writeUint64 addr.lastSeen ++ writeUint32 addr.services ++ writeUint32 addr.sinAddr ++
    [UInt8.ofNat (addr.sinPort.toNat / 256), UInt8.ofNat addr.sinPort.toNat]

def serializeAddr (addrs : List PeerAddr) : Bytes :=
  writeVarInt addrs.length ++ addrs.flatMap serializePeerAddr

def serializeInvVect (inv : InvVect) : Bytes := writeUint32 inv.type ++ inv.hash.bytes

def serializeInv (invs : List InvVect) : Bytes :=
  writeVarInt invs.length ++ invs.flatMap serializeInvVect

def serializeGetData (invs : List InvVect) : Bytes := serializeInv invs

def serializeGetHeaders (locatorHashes : List Digest) (hashStop : Digest) : Bytes :=
  writeUint32 PROTOCOL_VERSION ++ writeVarInt locatorHashes.length ++
    locatorHashes.flatMap Digest.bytes ++ hashStop.bytes

def serializeHeader (header : BlockHeader) : Bytes :=
  writeUint32 header.version ++ header.prevBlockHash.bytes ++ header.merkleRoot.bytes ++
    writeUint64 header.timestamp ++ writeUint32 header.difficulty ++ writeUint64 header.nonce ++
    header.hash.bytes

/-- `serializeHeaders`: empty when a header does not have the compact size. -/
def serializeHeaders (headers : List BlockHeader) : Bytes :=
  if headers.all fun header => (serializeHeader header).length == kCompactHeaderBytes then
    writeVarInt headers.length ++ headers.flatMap serializeHeader
  else []

def serializePing (nonce : UInt64) : Bytes := writeUint64 nonce

/-! ## Reading -/

def readUint32 (data : Bytes) : Reader UInt32 :=
  (fun bytes => UInt32.ofNat (readLe bytes)) <$> take data 4

def readUint64 (data : Bytes) : Reader UInt64 :=
  (fun bytes => UInt64.ofNat (readLe bytes)) <$> take data 8

/-- A hash that is copied out of the payload. -/
def readDigest (data : Bytes) : Reader Digest := Digest.ofPrefix <$> take data 32

/-- `readVarInt`: zero at the end of the payload, and for a number that is cut
off. -/
def readVarInt (data : Bytes) : Reader Nat := do
  if (← get) ≥ data.length then return 0
  else do
    let first := readLe (← take data 1)
    let offset ← get
    if first < 0xFD then return first
    else if first = 0xFD ∧ offset + 2 ≤ data.length then readLe <$> take data 2
    else if first = 0xFE ∧ offset + 4 ≤ data.length then UInt32.toNat <$> readUint32 data
    else if first = 0xFF ∧ offset + 8 ≤ data.length then UInt64.toNat <$> readUint64 data
    else return 0

/-- `readString`: empty, and only its length is skipped, when the text would end
behind the payload. -/
def readString (data : Bytes) : Reader Bytes := do
  let len ← readVarInt data
  let offset ← get
  if len > data.length ∨ offset + len > data.length then return [] else take data len

def deserializeVersion (data : Bytes) : Reader (Option VersionMessage) :=
  if data.length < 40 then return none
  else do
    let version ← readUint32 data
    let services ← UInt64.toUInt32 <$> readUint64 data
    let timestamp ← readUint64 data
    skip 16
    let _nonce ← readUint64 data
    let userAgent ← readString data
    let startHeight ← readIf data 4 (readUint32 data)
    return some { version, services, timestamp, userAgent, startHeight }

def readPeerAddr (data : Bytes) : Reader PeerAddr := do
  let lastSeen ← readUint64 data
  let services ← readUint32 data
  let sinAddr ← readUint32 data
  let high ← readLe <$> take data 1
  let low ← readLe <$> take data 1
  return { sinFamily := AF_INET, sinAddr, sinPort := UInt16.ofNat (high * 256 + low),
           lastSeen, services, failures := 0 }

def deserializeAddr (data : Bytes) : Reader (Option (List PeerAddr)) :=
  if data.isEmpty then return none
  else do
    let count ← readVarInt data
    if count > 1000 then return none else many data 18 (some <$> readPeerAddr data) count

def readInvVect (data : Bytes) : Reader InvVect := do
  let type ← readUint32 data
  let hash ← readDigest data
  return { type, hash }

def deserializeInv (data : Bytes) : Reader (Option (List InvVect)) :=
  if data.isEmpty then return none
  else do
    let count ← readVarInt data
    if count > MAX_INV_SIZE then return none else many data 36 (some <$> readInvVect data) count

/-- `deserializeGetHeaders`: the locator and the stop hash, which is left alone
when the payload ends before it. -/
def deserializeGetHeaders (data : Bytes) : Reader (Option (List Digest × Option Digest)) :=
  if data.length < 37 then return none
  else do
    skip 4
    let count ← readVarInt data
    if count > 500 then return none
    else do
      match ← many data 32 (some <$> readDigest data) count with
      | none => return none
      | some locatorHashes => return some (locatorHashes, ← readIf data 32 (readDigest data))

/-- The fields of a header up to its nonce. -/
def readHeaderFields (data : Bytes) : Reader BlockHeader := do
  let version ← readUint32 data
  let prevBlockHash ← readDigest data
  let merkleRoot ← readDigest data
  let timestamp ← readUint64 data
  let difficulty ← readUint32 data
  let nonce ← readUint64 data
  return { version, prevBlockHash, merkleRoot, timestamp, difficulty, nonce,
           hash := Digest.zero, height := 0 }

def readCompactHeader (data : Bytes) : Reader (Option BlockHeader) := do
  let start ← get
  let header ← readHeaderFields data
  let hash ← readDigest data
  if (← get) - start ≠ kCompactHeaderBytes then return none
  else return some { header with hash }

/-- `deserializeHeaders`: the headers and the number of bytes consumed. -/
def deserializeHeaders (data : Bytes) : Reader (Option (List BlockHeader × Nat)) :=
  if data.isEmpty then return none
  else do
    let count ← readVarInt data
    if count = 0 ∨ count > 2000 then return none
    else do
      let offset ← get
      if data.length < offset ∨ data.length - offset ≠ count * kCompactHeaderBytes then return none
      else do
        match ← many data kCompactHeaderBytes (readCompactHeader data) count with
        | none => return none
        | some headers =>
            let consumed ← get
            if consumed ≠ data.length then return none else return some (headers, consumed)

def deserializePing (data : Bytes) : Reader (Option UInt64) :=
  if data.length < 8 then return none else some <$> readUint64 data

def deserializeThreatAlert (data : Bytes) : Reader (Option ThreatAlert) :=
  if data.length < 20 then return none
  else do
    let threatType ← readString data
    let severity ← readString data
    let sourceIP ← readUint32 data
    let timestamp ← readUint64 data
    let details ← readString data
    let reportingNodeId ← readString data
    let confidenceFixed ← readIf data 8 (readUint64 data)
    return some { threatType, severity, sourceIP, timestamp, details, reportingNodeId,
                  confidenceFixed }

/-- The header that `handleBlock` reads at the start of a binary body. -/
def readBinaryHeader (host : Host) (payload : Bytes) : Reader (Option BlockHeader) :=
  if payload.length < 112 then return none
  else do
    let header ← readHeaderFields payload
    let preimage ← peek payload 0 112
    return some { header with hash := host.sha256 preimage }

/-- What a decoder makes of a payload; nothing when it reads past the end. -/
def decode {Message : Type} (reader : Bytes → Reader (Option Message)) (data : Bytes) :
    Option (Option Message) :=
  ((reader data).run 0).map Prod.fst

end PiSecure
