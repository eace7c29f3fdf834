import PiSecure.Theory.RoundTrip

/-! # Reading a stored transaction back

`tx_to_json` writes more than a submitted transaction has to carry: the id, the
flags of a listing, and the addresses that names resolve to. The parser refuses a
document by its size, so a transaction is read back just when what was written
for it is still within the limit.
-/

namespace PiSecure

variable {host : Host}

/-- **Stored transactions re-parse up to the size limit.** A transaction that was
parsed at a height, with its names resolved or not, is read back from its own JSON
just when that is within the limit. -/
theorem stored_tx_reparses_iff {obj : Json} {height : Nat} {tx : Tx} {names : NameTable}
    (sound : names.Sound) (parses : parseUserTx host obj height = .ok tx) :
    parseUserTx host (txToJson (names.resolveOutputNames host tx)) height =
        .ok (names.resolveOutputNames host tx) ↔
      (txToJson (names.resolveOutputNames host tx)).dumpSize ≤ kMaxTxJsonBytes := by
  have parsed := (parseUserTx_ok parses).1.resolve sound
  constructor
  · intro readBack
    exact (parseUserTx_ok readBack).2.2
  · exact parseUserTx_txToJson_of_small parsed

section LongKey

/-- A transaction whose input shows a key, as the parser reads it. -/
private def keyed (host : Host) (key : Text) : Tx :=
  let tx : Tx :=
    { fee := 1, inputs := [⟨Digest.zero, 0, [], key⟩], outputs := [⟨1, ['x']⟩] }
  { tx with txid := txidOf host tx }

/-- The shortest document of such a transaction. -/
private def keyedJson (key : Text) : Json :=
  .object
    [("fee", .unsigned 1),
      ("inputs", .array [.object
        [("prev_txid", .string (toHex Digest.zero)), ("public_key", .string key),
          ("vout", .unsigned 0)]]),
      ("outputs", .array [.object [("address", .string ['x']), ("value", .unsigned 1)]]),
      ("version", .unsigned 1)]

variable {key : Text}

private theorem parsed_keyed (key : Text) : (keyed host key).Parsed host 1 where
  version := rfl
  user := ⟨rfl, rfl⟩
  fee := ⟨show (1 : UInt64) ≠ 0 by decide, show minFeeForHeight 1 ≤ 1 by decide⟩
  register := ⟨rfl, rfl, rfl⟩
  flag := ⟨rfl, rfl, rfl, rfl, rfl, rfl, rfl, rfl, rfl⟩
  inputs := show 1 ≤ kMaxTxInputs by decide
  outputs := ⟨List.cons_ne_nil _ _, List.forall_mem_singleton.mpr ⟨by decide, by decide, by decide⟩⟩
  txid := rfl

/-- The document is read as the transaction, as long as it is small enough. -/
private theorem parse_keyedJson (host : Host) (key : Text)
    (small : (keyedJson key).dumpSize ≤ kMaxTxJsonBytes) :
    parseUserTx host (keyedJson key) 1 = .ok (keyed host key) := by
  have typed : Typed (keyedJson key) (keyed host key) := by
    refine ⟨?_⟩
    simp only [typedKeys, List.forall_mem_cons]
    refine ⟨rfl, rfl, rfl, rfl, rfl, rfl, rfl, rfl, rfl, rfl, rfl, fun _ none => ?_⟩
    cases none
  have read : [Json.object [("prev_txid", .string (toHex Digest.zero)), ("public_key", .string key),
      ("vout", .unsigned 0)]].mapM parseInput = .ok (keyed host key).inputs := by
    refine mapM_eq_ok.mpr (.cons ?_ .nil)
    unfold parseInput
    simp [Json.text?, Json.unsigned?, Json.get?, Json.lookup, Json.asText?, Json.asUnsigned?]
  exact parseUserTx_of_members (parsed_keyed key) typed rfl rfl rfl read rfl small (by
    rw [length_canonicalTx]
    change 75 ≤ kMaxTxBytes
    decide)

/-- What a document takes beside the key, when no letter of the key is escaped. -/
private theorem size_keyedJson (plain : key.flatMap Json.escapeChar = key) :
    (keyedJson key).dumpSize = key.size + 176 := by
  have marks : '"'.utf8Size = 1 ∧ Text.size ['"'] = 1 := by decide
  have quoted : (Json.quote key).size = key.size + 2 := by
    rw [Json.quote, Text.size_cons, Text.size_append, plain, marks.1, marks.2]
    omega
  have brackets : '['.utf8Size = 1 ∧ ','.utf8Size = 1 ∧ ':'.utf8Size = 1 ∧ '\x7b'.utf8Size = 1 ∧
      Text.size [']'] = 1 ∧ Text.size ['\x7d'] = 1 := by
    decide
  have keys : (Json.quote "fee".toList).size = 5 ∧ (Json.quote "inputs".toList).size = 8 ∧
      (Json.quote "prev_txid".toList).size = 11 ∧ (Json.quote "public_key".toList).size = 12 ∧
      (Json.quote "vout".toList).size = 6 ∧ (Json.quote "outputs".toList).size = 9 ∧
      (Json.quote "address".toList).size = 9 ∧ (Json.quote "value".toList).size = 7 ∧
      (Json.quote "version".toList).size = 9 := by
    decide
  have values : (Json.quote (toHex Digest.zero)).size = 66 ∧ (Json.quote ['x']).size = 3 ∧
      (Json.decimal (1 : UInt64).toNat).size = 1 ∧ (Json.decimal (0 : UInt64).toNat).size = 1 := by
    decide
  simp only [keyedJson, Json.dumpSize, Json.dump, Json.dumpMembers, Json.dumpItems,
    Text.size_append, Text.size_cons, keys, values, brackets, quoted]
  omega

/-- What is written for the transaction takes more. -/
private theorem size_keyed (host : Host) (shown : key ≠ []) :
    key.size + 242 ≤ (txToJson (keyed host key)).dumpSize := by
  obtain ⟨version, inputs, outputs, fee⟩ := txToJson_base (keyed host key)
  have txid : (txToJson (keyed host key)).get? "txid" =
      some (.string (toHex (keyed host key).txid)) := by
    rw [txToJson_get?]
    rfl
  have whole := Json.sum_memberSize_le
    [("version", .unsigned 1), ("inputs", .array ((keyed host key).inputs.map inputToJson)),
      ("outputs", .array ((keyed host key).outputs.map outputToJson)), ("fee", .unsigned 1),
      ("txid", .string (toHex (keyed host key).txid))]
    (Json.isObject_of_get? version)
    (show ["version", "inputs", "outputs", "fee", "txid"].Nodup by decide) (by
      simp only [List.forall_mem_cons]
      exact ⟨version, inputs, outputs, fee, txid, fun _ none => nomatch none⟩)
  have input := @Json.sum_memberSize_le (inputToJson ⟨Digest.zero, 0, [], key⟩)
    [("prev_txid", .string (toHex Digest.zero)), ("vout", .unsigned 0), ("public_key", .string key)]
    rfl (show ["prev_txid", "vout", "public_key"].Nodup by decide) (by
      simp only [List.forall_mem_cons, inputToJson, Json.get?_ofMembers]
      cases key with
      | nil => exact absurd rfl shown
      | cons letter rest => exact ⟨rfl, rfl, rfl, fun _ none => nomatch none⟩)
  have output := @Json.sum_memberSize_le (outputToJson ⟨1, ['x']⟩)
    [("address", .string ['x']), ("value", .unsigned 1)] rfl (by decide) (by
      simp only [List.forall_mem_cons, outputToJson, Json.get?_ofMembers]
      exact ⟨rfl, rfl, fun _ none => nomatch none⟩)
  have inputArray := Json.dumpSize_array ((keyed host key).inputs.map inputToJson)
  have outputArray := Json.dumpSize_array ((keyed host key).outputs.map outputToJson)
  have hash := Json.dumpSize_string (toHex (keyed host key).txid)
  have zero := Json.dumpSize_string (toHex Digest.zero)
  have shownKey := Json.dumpSize_string key
  have address := Json.dumpSize_string ['x']
  have one := Json.dumpSize_unsigned 1
  have none := Json.dumpSize_unsigned 0
  have letter : Text.size ['x'] = 1 := rfl
  have keys : Text.size "version".toList = 7 ∧ Text.size "inputs".toList = 6 ∧
      Text.size "outputs".toList = 7 ∧ Text.size "fee".toList = 3 ∧ Text.size "txid".toList = 4 ∧
      Text.size "prev_txid".toList = 9 ∧ Text.size "vout".toList = 4 ∧
      Text.size "public_key".toList = 10 ∧ Text.size "address".toList = 7 ∧
      Text.size "value".toList = 5 :=
    ⟨rfl, rfl, rfl, rfl, rfl, rfl, rfl, rfl, rfl, rfl⟩
  rw [size_toHex] at hash zero
  change (inputToJson ⟨Digest.zero, 0, [], key⟩).dumpSize + 0 + 1 + 1 ≤ _ at inputArray
  change (outputToJson ⟨1, ['x']⟩).dumpSize + 0 + 1 + 1 ≤ _ at outputArray
  simp only [List.map_cons, List.map_nil, List.sum_cons, List.sum_nil, Json.memberSize, keys]
    at whole input output
  omega

private theorem plain_replicate (count : Nat) :
    (List.replicate count 'a').flatMap Json.escapeChar = List.replicate count 'a' := by
  induction count with
  | zero => rfl
  | succ count ih =>
      rw [List.replicate_succ, List.flatMap_cons, ih]
      rfl

private theorem size_replicate (count : Nat) : Text.size (List.replicate count 'a') = count := by
  change ((List.replicate count 'a').map Char.utf8Size).sum = count
  have letter : 'a'.utf8Size = 1 := rfl
  rw [List.map_replicate, List.sum_replicate, letter, Nat.nsmul_eq_mul, Nat.mul_one]

theorem stored_tx_reparses_iff_short :
    ∃ (host : Host) (obj : Json) (tx : Tx), parseUserTx host obj 1 = .ok tx ∧
      (parseUserTx host (txToJson (NameTable.resolveOutputNames host [] tx)) 1 =
          .ok (NameTable.resolveOutputNames host [] tx) ↔
        (txToJson (NameTable.resolveOutputNames host [] tx)).dumpSize ≤ kMaxTxJsonBytes) := by
  have parses := parse_keyedJson (Host.ofTables [] []) ['a'] (by decide +kernel)
  exact ⟨_, _, _, parses, stored_tx_reparses_iff NameTable.sound_empty parses⟩

/-- A transaction whose document is within the limit, and not the one that is
written for it. -/
theorem stored_tx_outgrows :
    ¬∀ (host : Host) (obj : Json) (height : Nat) (tx : Tx) (names : NameTable), names.Sound →
      parseUserTx host obj height = .ok tx →
        parseUserTx host (txToJson (names.resolveOutputNames host tx)) height =
          .ok (names.resolveOutputNames host tx) := by
  intro reparses
  let host := Host.ofTables [] []
  let key : Text := List.replicate 65300 'a'
  have size : key.size = 65300 := size_replicate 65300
  have limit : kMaxTxJsonBytes = 65536 := rfl
  have parses := parse_keyedJson host key (by
    rw [size_keyedJson (plain_replicate 65300), size, limit]
    decide)
  have shown : key ≠ [] := fun none => by
    rw [none] at size
    cases size
  have grown := size_keyed host shown
  have readBack := reparses host _ 1 _ [] NameTable.sound_empty parses
  have unchanged : NameTable.resolveOutputNames host [] (keyed host key) = keyed host key := by
    rw [resolveOutputNames_eq [] (parsed_keyed key).txid]
    rfl
  rw [unchanged] at readBack
  have small := (parseUserTx_ok readBack).2.2
  omega

end LongKey

end PiSecure
