import Mathlib.Data.Char
import Mathlib.Data.Finset.Sort
import Mathlib.Data.List.Lex
import PiSecure.Model.Submit
import PiSecure.Model.Wallet

/-! # Queries

The calls of the node that a wallet asks before it pays: the height and the scale of
amounts, the unspent coins of an address, the pending transactions and the address of a
name. A query reads the names file first, and changes nothing else.
-/

namespace PiSecure

/-! ## The chain -/

/-- `rpc_getblockchaininfo`. -/
def rpcGetblockchaininfo (node : Node) : Json :=
  .ofMembers
    [("height", .unsigned (UInt64.ofNat node.storage.bestHeight)),
      ("bestblockhash", .string (toHex node.storage.bestBlockHash)),
      ("pi_activation_height", .unsigned (UInt64.ofNat piActivationHeight)),
      ("amount_scale", .unsigned (amountScaleForNext (node.storage.bestHeight + 1)))]

/-! ## Coins -/

/-- `Storage::UtxoEntry`. -/
structure UtxoEntry where
  txid : Digest
  vout : UInt32
  units : UInt64
  address : Text
  height : Nat
deriving DecidableEq

/-- The key of an outpoint in `utxo_`. -/
def utxoKey (point : Outpoint) : Text := toHex point.1 ++ ':' :: Json.decimal point.2.toNat

/-- The outpoint that `list_utxos` reads from a key. -/
def readUtxoKey (key : Text) : Option Outpoint :=
  (fromHex (key.takeWhile (· ≠ ':'))).map fun txid =>
    (txid, UInt32.ofNat (Nat.ofDigitChars 10 ((key.dropWhile (· ≠ ':')).drop 1) 0))

/-- `list_utxos`, in the order of the keys; every coin when the address is empty. -/
def Storage.listUtxos (storage : Storage) (address : Text) : List UtxoEntry :=
  ((storage.utxo.keys.image utxoKey).sort).filterMap fun key => do
    let point ← readUtxoKey key
    let record ← storage.utxo.lookup point
    if !address.isEmpty && record.address ≠ address then none
    else some ⟨point.1, point.2, record.value, record.address, record.height⟩

/-- The sums and the rows that `rpc_listunspent` collects, with the pi of each row. -/
structure Listing where
  units : UInt64
  pi : UInt64
  rows : List (UtxoEntry × UInt64)

/-- One row of `rpc_listunspent`. A row whose worth does not fit is left out. -/
def Listing.add (listing : Listing) (entry : UtxoEntry) : Listing :=
  match storedToPi entry.units entry.height with
  | none => listing
  | some pi =>
      if listing.pi > uint64Max - pi then listing
      else ⟨listing.units + entry.units, listing.pi + pi, listing.rows ++ [(entry, pi)]⟩

/-- The listing of some coins. -/
def listingOf (entries : List UtxoEntry) : Listing := entries.foldl Listing.add ⟨0, 0, []⟩

/-- The address or name that is asked for. -/
def unspentQuery (host : Host) (params : Json) : Text :=
  match params with
  | .array (.string address :: _) => address
  | .string address => address
  | _ =>
      let obj := asObjectParam host params
      match obj.text? "address" with
      | some address => address
      | none => (obj.text? "name").getD []

/-- The address behind a query of `rpc_listunspent`, and the name that is shown for it. -/
def NameTable.unspentAddress (names : NameTable) (query : Text) : Text × Text :=
  match names.findName query with
  | some record => (record.address, record.name)
  | none =>
      let ps1 := lowerAscii (query.take 3) ++ lowerHex (query.drop 3)
      if query.size = 67 ∧ lowerAscii (query.take 3) = "ps1".toList ∧ isLongAddress ps1 then
        (ps1, ((names.findAddress ps1).map NameRec.name).getD [])
      else (query, [])

/-- A row as it is shown. -/
def unspentRow (row : UtxoEntry × UInt64) : Json :=
  .ofMembers
    [("txid", .string (toHex row.1.txid)), ("vout", .unsigned row.1.vout.toUInt64),
      ("units", .unsigned row.1.units), ("pi", .unsigned row.2),
      ("height", .unsigned (UInt64.ofNat row.1.height)), ("address", .string row.1.address),
      ("amount", .string (format314stPi row.2))]

namespace Node

/-- A node that has read its names file again. -/
def refreshed (node : Node) : Node := { node with names := node.names.loadFile node.namesFile }

/-- `rpc_listunspent`. -/
def rpcListunspent (host : Host) (node : Node) (params : Json) : Node × Json :=
  let node := node.refreshed
  let query := unspentQuery host params
  let (address, shown) := node.names.unspentAddress query
  let listing := listingOf (node.storage.listUtxos address)
  (node, .ofMembers <|
    [("address", .string address), ("units", .unsigned listing.units),
      ("pi", .unsigned listing.pi), ("amount", .string (format314stPi listing.pi)),
      ("utxos", .array (listing.rows.map unspentRow))] ++
    (if shown.isEmpty then [] else [("name", .string shown)]) ++
    (if query.isEmpty ∨ query = address then [] else [("query", .string query)]))

/-! ## The mempool -/

/-- `rpc_getmempool`. -/
def rpcGetmempool (host : Host) (moment : Moment) (node : Node) : Json :=
  let txs := mempoolTxs host moment node
  .ofMembers
    [("count", .unsigned (UInt64.ofNat txs.length)),
      ("bytes", .unsigned (UInt64.ofNat ((txs.map fun tx => (canonicalTx tx).length).sum))),
      ("transactions", .array (txs.map txToJson))]

/-! ## Names -/

/-- Whether a key file of a name is there. -/
def walletFile (node : Node) (name : Text) : Bool :=
  addressFilename name && (node.wallets name).isSome

/-- A text of the size of a long address in lower case; empty when it is none. -/
def lookupPs1 (text : Text) : Text :=
  if text.size = 67 ∧ isLongAddress (lowerAscii text) then lowerAscii text else []

def notFound : Json := .ofMembers [("found", .bool false)]

/-- The answer for a long address: known by a key file or by a name. -/
def ps1Hit (node : Node) (ps1 : Text) : Json :=
  let names := (List.filter (fun record : NameRec => record.address == ps1) node.names).map
    fun record => Json.string record.name
  if ps1.isEmpty then notFound
  else if ¬node.walletFile ps1 ∧ names.isEmpty then notFound
  else .ofMembers [("found", .bool true), ("address", .string ps1), ("names", .array names)]

/-- The answer for a name with its address. -/
def nameHit (name address : Text) : Json :=
  .ofMembers
    [("found", .bool true), ("name", .string name), ("address", .string address),
      ("reserved", .bool (isReservedName name))]

/-- The answer for a name. -/
def nameAnswer (node : Node) (name : Text) : Json :=
  if name.isEmpty then notFound
  else if !(lookupPs1 name).isEmpty then node.ps1Hit (lookupPs1 name)
  else
    match node.names.findName name with
    | some record => nameHit record.name record.address
    | none =>
        if node.walletFile name then nameHit name name
        else if foldName name ≠ name ∧ node.walletFile (foldName name) then
          nameHit (foldName name) (foldName name)
        else notFound

/-- `rpc_namelookup`. -/
def rpcNamelookup (host : Host) (node : Node) (params : Json) : Node × Json :=
  let node := node.refreshed
  let obj := asObjectParam host params
  let byName :=
    match params with
    | .string name => some name
    | _ => obj.text? "name"
  match byName, obj.text? "address" with
  | some name, _ => (node, node.nameAnswer name)
  | none, some address =>
      (node, if address.isEmpty then notFound else node.ps1Hit (lookupPs1 address))
  | none, none => (node, notFound)

end Node

/-! ## Queries one after the other -/

/-- What a wallet asks a node. -/
inductive Query where
  | blockchainInfo
  | listUnspent (params : Json)
  | nameLookup (params : Json)
  | mempool (moment : Moment)

namespace Node

/-- The node after a query, and its answer. -/
def ask (host : Host) (node : Node) : Query → Node × Json
  | .blockchainInfo => (node, rpcGetblockchaininfo node)
  | .listUnspent params => node.rpcListunspent host params
  | .nameLookup params => node.rpcNamelookup host params
  | .mempool moment => (node, node.rpcGetmempool host moment)

/-- The node after some queries. -/
def asked (host : Host) (node : Node) (queries : List Query) : Node :=
  queries.foldl (fun node query => (node.ask host query).1) node

end Node

/-! ## What the wallet reads -/

namespace Wallet

/-- A row of `listunspent`, as `coin_from_row` takes it apart. -/
def readRow (row : Json) : Row where
  txid := (row.text? "txid").bind fromHex
  vout := ((row.unsigned? "vout").getD 0).toUInt32
  units := (row.unsigned? "units").getD 0
  pi := row.unsigned? "pi"

/-- The rows of `listunspent`. -/
def unspentRows (answer : Json) : List Row := (items answer "utxos").map readRow

/-- The outpoints that the transactions of `getmempool` spend. -/
def spentOutpoints (answer : Json) : List Outpoint :=
  (items answer "transactions").flatMap fun tx =>
    (items tx "inputs").filterMap fun input =>
      ((input.text? "prev_txid").bind fromHex).map fun prev =>
        (prev, ((input.unsigned? "vout").getD 0).toUInt32)

/-- The address that `resolve_address` takes from `namelookup`. -/
def foundAddress (answer : Json) : Option Text :=
  match answer.get? "found" with
  | some (.bool false) => none
  | _ => answer.text? "address"

end Wallet

end PiSecure
