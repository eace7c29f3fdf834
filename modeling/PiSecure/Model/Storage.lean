import Mathlib.Data.Finmap
import PiSecure.Model.Transaction

/-! # The block store

`storage.cpp` at the level of whole frames: the frames of `blk*.dat` in index
order, the hash and height indexes of the active chain, the UTXO set and the
mempool. File operations succeed.
-/

namespace PiSecure

/-- `BlockHeader`. -/
structure BlockHeader where
  version : UInt32
  prevBlockHash : Digest
  merkleRoot : Digest
  timestamp : UInt64
  difficulty : UInt32
  nonce : UInt64
  hash : Digest
  height : Nat
deriving DecidableEq

/-- Stored bytes. The text of a JSON document is kept as the document that it
parses to. -/
inductive Payload where
  | doc (json : Json)
  | raw (bytes : Bytes)

/-- The document that stored bytes parse to. -/
def Payload.parse (host : Host) : Payload → Option Json
  | .doc json => some json
  | .raw bytes => host.parse bytes

/-- `Transaction`: a mempool entry. -/
structure Transaction where
  hash : Digest
  data : Payload

/-- `UtxoRecord`. -/
structure UtxoRecord where
  value : UInt64
  address : Text
  height : Nat
deriving DecidableEq

/-- The UTXO set. The source keys it by the text of the outpoint. -/
abbrev UtxoSet := Finmap fun _ : Outpoint => UtxoRecord

/-- The mempool, in the order of insertion. -/
abbrev Mempool := AList fun _ : Digest => Transaction

/-- `Storage`. -/
structure Storage where
  frames : List Payload
  hashToIndex : Finmap fun _ : Digest => Nat
  headersCache : Finmap fun _ : Digest => BlockHeader
  heightToHash : List Digest
  bestBlockHash : Digest
  bestHeight : Nat
  mempool : Mempool
  utxo : UtxoSet

namespace Storage

/-- The store of an empty data directory. -/
def empty : Storage where
  frames := []
  hashToIndex := ∅
  headersCache := ∅
  heightToHash := []
  bestBlockHash := Digest.zero
  bestHeight := 0
  mempool := ∅
  utxo := ∅

/-- The store right after `init` on a directory with the given frames. -/
def reopen (frames : List Payload) : Storage := { empty with frames := frames }

/-- `has_tip`. -/
def hasTip (storage : Storage) : Bool := !storage.heightToHash.isEmpty

/-- `get_header_by_hash`. -/
def getHeaderByHash (storage : Storage) (hash : Digest) : Option BlockHeader :=
  storage.headersCache.lookup hash

/-- `get_header_by_height`. -/
def getHeaderByHeight (storage : Storage) (height : Nat) : Option BlockHeader :=
  storage.heightToHash[height]?.bind storage.getHeaderByHash

/-- `tip_difficulty`. -/
def tipDifficulty (storage : Storage) : UInt32 :=
  if storage.hasTip then
    ((storage.getHeaderByHash storage.bestBlockHash).map BlockHeader.difficulty).getD 0
  else 0

/-- `block_index`. -/
def blockIndex (storage : Storage) (hash : Digest) : Option Nat := storage.hashToIndex.lookup hash

/-- The height index with the entry of a height written, resized when needed. -/
def writeHeight (index : List Digest) (height : Nat) (hash : Digest) : List Digest :=
  (index ++ List.replicate (height + 1 - index.length) Digest.zero).set height hash

/-- `store_block_with_header`. -/
def storeBlockWithHeader (storage : Storage) (hash : Digest) (header : BlockHeader)
    (payload : Payload) : Storage :=
  { storage with
    frames := storage.frames ++ [payload]
    hashToIndex := storage.hashToIndex.insert hash storage.frames.length
    headersCache := storage.headersCache.insert hash header
    heightToHash := writeHeight storage.heightToHash header.height hash
    bestHeight := if header.height > storage.bestHeight then header.height else storage.bestHeight
    bestBlockHash := if header.height > storage.bestHeight then hash else storage.bestBlockHash }

/-- `index_existing_block`. -/
def indexExistingBlock (storage : Storage) (index : Nat) (header : BlockHeader) : Option Storage :=
  if index ≥ storage.frames.length then none
  else
    let better := header.height > storage.bestHeight ∨ storage.bestBlockHash = Digest.zero
    some { storage with
      hashToIndex := storage.hashToIndex.insert header.hash index
      headersCache := storage.headersCache.insert header.hash header
      heightToHash := writeHeight storage.heightToHash header.height header.hash
      bestHeight := if better then header.height else storage.bestHeight
      bestBlockHash := if better then header.hash else storage.bestBlockHash }

/-- `reset_active_chain`. -/
def resetActiveChain (storage : Storage) : Storage :=
  { storage with
    utxo := ∅
    mempool := ∅
    heightToHash := []
    bestBlockHash := Digest.zero
    bestHeight := 0 }

/-! ## Mempool -/

/-- `add_transaction`. -/
def addTransaction (storage : Storage) (tx : Transaction) : Storage :=
  { storage with mempool := storage.mempool.insert tx.hash tx }

/-- `has_transaction`. -/
def hasTransaction (storage : Storage) (hash : Digest) : Bool :=
  (storage.mempool.lookup hash).isSome

/-- `remove_transaction`. -/
def removeTransaction (storage : Storage) (hash : Digest) : Storage :=
  { storage with mempool := storage.mempool.erase hash }

/-! ## UTXO set -/

/-- `UtxoCredit`: the outpoint and the record created at it. -/
abbrev UtxoCredit := Outpoint × UtxoRecord

/-- `apply_utxos`: every spend and credit, or nothing. -/
def applyUtxos (utxo : UtxoSet) (spends : List Outpoint) (credits : List UtxoCredit) :
    Option UtxoSet :=
  if (∀ spend ∈ spends, spend ∈ utxo) ∧ (∀ credit ∈ credits, credit.1 ∉ utxo) then
    some (credits.foldl (fun all credit => all.insert credit.1 credit.2)
      (spends.foldl (fun all spend => all.erase spend) utxo))
  else none

/-! ## Header checks -/

/-- `validate_block_header` against a previous header. -/
def validateBlockHeader (header : BlockHeader) (prevHeader : BlockHeader) : Bool :=
  header.timestamp ≠ 0 && header.prevBlockHash = prevHeader.hash &&
    header.height = prevHeader.height + 1 && prevHeader.timestamp < header.timestamp

/-- The leading zero bits of a byte. -/
def leadingZeroBits (byte : UInt8) : Nat :=
  ((List.range 8).takeWhile fun bit => !byte.toNat.testBit (7 - bit)).length

/-- The zero bits that `validate_block_pow` counts. -/
def countZeroBits : Bytes → Nat
  | [] => 0
  | byte :: rest => if byte = 0 then 8 + countZeroBits rest else leadingZeroBits byte

/-- `validate_block_pow`. The difficulty is compared as a signed number. -/
def validateBlockPow (hash : Digest) (difficulty : UInt32) : Bool :=
  difficulty.toInt32.toInt ≤ countZeroBits hash.bytes

end Storage

end PiSecure
