import PiSecure.Model.Transaction

/-! # Names

The name table of `chain_rpc.cpp`: which spellings are valid, how a record is
remembered, what `names.json` and stored blocks contribute, and how a payout
is resolved to an address.
-/

namespace PiSecure

/-- `fold_name`. -/
def foldName (name : Text) : Text := lowerAscii name

/-- `valid_shortname`. -/
def validShortname (name : Text) : Bool :=
  2 ≤ name.size && name.size ≤ 32 &&
    (name.head?.map Char.isAlpha).getD false &&
    name.all fun c => c.isAlphanum || c == '_' || c == '-'

/-- The reserved names. -/
def reservedNames : List Text :=
  ["foundation".toList, "validator".toList, "stakers".toList, "loans".toList, "genesis".toList,
    "pisecure".toList, "operator".toList]

/-- `is_reserved_name`. -/
def isReservedName (name : Text) : Bool := reservedNames.contains (foldName name)

/-- `is_ps1_payout`. -/
def isPs1Payout (address : Text) : Bool := address.size = 67 && isLongAddress (lowerAscii address)

/-- `NameRec`. -/
structure NameRec where
  name : Text
  address : Text
  kind : Text
  txid : Text
deriving DecidableEq

/-- `g_names`. -/
abbrev NameTable := List NameRec

/-- The kind of a registered name. -/
def nameKind (name : Text) : Text :=
  if isReservedName name then "reserved_bind".toList else "register".toList

namespace NameTable

/-- `find_name_locked`. -/
def findName (table : NameTable) (name : Text) : Option NameRec :=
  List.find? (fun rec => foldName rec.name == foldName name) table

/-- `find_address_locked`. -/
def findAddress (table : NameTable) (address : Text) : Option NameRec :=
  List.find? (fun rec => rec.address == address) table

/-- The table with the first record of a name changed. -/
def updateName (table : NameTable) (name : Text) (change : NameRec → NameRec) : NameTable :=
  match table with
  | [] => []
  | first :: rest =>
      if foldName first.name = foldName name then change first :: rest
      else first :: updateName rest name change

/-- `remember_name`. -/
def remember (table : NameTable) (name address kind txid : Text) (overwrite : Bool) :
    Except String NameTable :=
  if ¬validShortname name ∨ ¬isLongAddress address then .error "name invalid"
  else if (table.findAddress address).any fun rec => foldName rec.name != foldName name then
    .error "name is taken"
  else
    match table.findName name with
    | some existing =>
        if existing.address = address then
          .ok (table.updateName name fun rec =>
            { rec with
              txid := if txid.isEmpty then rec.txid else txid
              kind := if kind.isEmpty then rec.kind else kind })
        else if ¬overwrite then .error "name is taken"
        else .ok (table.updateName name fun _ => ⟨name, address, kind, txid⟩)
    | none => .ok (table ++ [⟨name, address, kind, txid⟩])

/-- The table after `remember_name`, whatever it returned. -/
def rememberOrKeep (table : NameTable) (name address kind txid : Text) (overwrite : Bool) :
    NameTable :=
  match table.remember name address kind txid overwrite with
  | .ok next => next
  | .error _ => table

/-! ## The names file and stored blocks -/

/-- A row of `name_snapshot_unlocked`. -/
def rowToJson (rec : NameRec) : Json :=
  .ofMembers <|
    [("name", .string rec.name), ("address", .string rec.address), ("kind", .string rec.kind)] ++
    (if rec.txid.isEmpty then [] else [("txid", .string rec.txid)])

/-- A row of `names.json`. -/
def savedRow (rec : NameRec) : Json :=
  .ofMembers <|
    [("name", .string rec.name), ("address", .string rec.address)] ++
    (if rec.kind = "reserved_bind".toList ∨ rec.txid.isEmpty then []
      else [("txid", .string rec.txid)])

/-- The document that `save_names` writes. -/
def saved (table : NameTable) : Json :=
  let reserved (rec : NameRec) : Bool := rec.kind = "reserved_bind".toList
  .ofMembers
    [("reserved_bind", .array ((table.filter reserved).map savedRow)),
      ("names", .array ((table.filter fun rec => !reserved rec).map savedRow))]

/-- The address of a record with its hexadecimal part in lower case. -/
def foldBoundAddress (address : Text) : Text :=
  if isLongAddress address then "ps1".toList ++ lowerHex (address.drop 3) else address

/-- `absorb_name_record`; nothing when reading the row throws. -/
def absorbRecord (table : NameTable) (row : Json) (chain : Bool) : Option NameTable :=
  match row.text? "name", row.text? "address" with
  | some name, some address =>
      let kind :=
        if row.text? "kind" = some "reserved_bind".toList then "reserved_bind".toList
        else nameKind name
      match row.valueOr "txid" Json.asText? [] with
      | none => none
      | some txid =>
          some (table.rememberOrKeep name (foldBoundAddress address) kind txid chain)
  | _, _ => some table

/-- The records of rows, up to the first row that throws. -/
def absorbRows (table : NameTable) (chain : Bool) : List Json → NameTable × Bool
  | [] => (table, true)
  | row :: rest =>
      match table.absorbRecord row chain with
      | none => (table, false)
      | some next => absorbRows next chain rest

/-- The reserved rows of the names file, each with its kind written; writing
into a row that is neither an object nor null throws. -/
def absorbReserved (table : NameTable) : List Json → NameTable × Bool
  | [] => (table, true)
  | row :: rest =>
      let copy := if row.isNull then Json.object [] else row
      if ¬copy.isObject then (table, false)
      else
        match table.absorbRecord (copy.set "kind" (.string "reserved_bind".toList)) false with
        | none => (table, false)
        | some next => absorbReserved next rest

/-- `load_names_file`. -/
def loadFile (table : NameTable) (file : Option Json) : NameTable :=
  match file with
  | none => table
  | some doc =>
      match table.absorbReserved ((doc.array? "reserved_bind").getD []) with
      | (next, true) => (next.absorbRows false ((doc.array? "names").getD [])).1
      | (next, false) => next

/-- The register rows of a stored block, up to the first that throws. -/
def absorbRegisters (table : NameTable) : List Json → NameTable × Bool
  | [] => (table, true)
  | row :: rest =>
      if ¬row.isObject then absorbRegisters table rest
      else
        match row.valueOr "type" Json.asText? [] with
        | none => (table, false)
        | some kind =>
            if kind ≠ "register".toList then absorbRegisters table rest
            else
              match table.absorbRecord row true with
              | none => (table, false)
              | some next => absorbRegisters next rest

/-- `absorb_block_names`: the table, and whether reading the block went
through without an exception. -/
def absorbBlock (table : NameTable) (block : Json) : NameTable × Bool :=
  match table.absorbRegisters ((block.array? "txs").getD []) with
  | (next, true) => next.absorbRows true ((block.array? "names").getD [])
  | (next, false) => (next, false)

/-- Whether a row of the names file grants a name to an address. -/
def grants (name address : Text) (row : Json) : Bool :=
  match row.text? "name", row.text? "address" with
  | some rowName, some rowAddress =>
      foldName rowName == foldName name && foldBoundAddress rowAddress == address
  | _, _ => false

/-- `grant_matches`: whether the names file holds a grant, and the table, which
remembers a matching one. -/
def grantMatches (table : NameTable) (file : Option Json) (name address : Text) :
    NameTable × Bool :=
  match file.bind fun doc => doc.array? "reserved_bind" with
  | none => (table, false)
  | some rows =>
      if rows.any (grants name address) then
        (table.rememberOrKeep name address "reserved_bind".toList [] false, true)
      else (table, false)

/-- One registration in `snapshot_including`. -/
def snapshotTx (rows : List NameRec) (tx : Tx) : List NameRec :=
  if ¬tx.reg then rows
  else
    let updated : NameRec := ⟨tx.name, tx.regAddress, nameKind tx.name, toHex tx.txid⟩
    let matching (rec : NameRec) : Bool := foldName rec.name == foldName tx.name
    if rows.any matching then rows.map fun rec => if matching rec then updated else rec
    else rows ++ [updated]

/-- `snapshot_including`. -/
def snapshotIncluding (table : NameTable) (txs : List Tx) : Json :=
  .array ((txs.foldl snapshotTx table).map rowToJson)

/-! ## Resolving payouts -/

/-- `resolve_miner`: the shown name and the payout address. -/
def resolveMiner (table : NameTable) (wallet : Text) : Except String (Text × Text) :=
  let ps1 := lowerAscii (wallet.take 3) ++ lowerHex (wallet.drop 3)
  if wallet.isEmpty ∨ wallet.size > 256 then .error "wallet or miner address required"
  else if wallet.size = 67 ∧ lowerAscii (wallet.take 3) = "ps1".toList ∧ isLongAddress ps1 then
    .ok (ps1, ps1)
  else if ¬validShortname wallet then .error "unknown shortname"
  else
    match table.findName wallet with
    | none => .error "unknown shortname"
    | some rec => .ok (rec.name, rec.address)

/-- One output of `resolve_output_names`. -/
def resolveOutput (table : NameTable) (output : TxOut) : TxOut :=
  match table.findName output.address with
  | some rec => { output with address := rec.address }
  | none => output

/-- `resolve_output_names`. -/
def resolveOutputNames (host : Host) (table : NameTable) (tx : Tx) : Tx :=
  let outputs := tx.outputs.map table.resolveOutput
  if outputs = tx.outputs then tx
  else { tx with outputs := outputs, txid := txidOf host { tx with outputs := outputs } }

end NameTable

end PiSecure
