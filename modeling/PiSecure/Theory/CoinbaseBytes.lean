import PiSecure.Theory.Commitment
import PiSecure.Theory.Mining

/-! # What a block hash commits to

The canonical bytes of a coinbase fix who is paid what, as long as the 16-bit
length in front of an address can say how long the address is. Only the payouts
to the miner and to the foundation have a bounded address.
-/

namespace PiSecure

open Framing

/-- The outputs that `rpc_submitblock` admits from the coinbase of a block, at a
height and with a fee total. -/
structure AdmitsOutputs (host : Host) (height : Nat) (fee : UInt64) (coinbase : Json)
    (outs : List CbOut) : Prop where
  read : ∃ payout, readCbOuts payout coinbase = .ok outs
  paid : checkPaid height (emissionFor height fee) fee outs = .ok ()
  checked : ∃ cb, checkCoinbase host height coinbase outs = .ok cb
  fits : (Json.array ((outs.filter fun out => out.units != 0).map (cbOutToJson height))).dumpSize ≤
    kMaxBlockBytes

/-- The outputs of an accepted block were admitted. -/
theorem Accepted.admitsOutputs {host : Host} (accepted : Accepted host) :
    AdmitsOutputs host accepted.height (feeUnits accepted.txs)
      accepted.checked.draft.fields.coinbase accepted.checked.draft.cbOuts := by
  obtain ⟨payout, drafted⟩ := accepted.passes.drafted
  refine ⟨⟨payout, drafted.cbOuts⟩, drafted.paid, ⟨_, drafted.cb⟩, ?_⟩
  have fits : accepted.stored.dumpSize ≤ kMaxBlockBytes := accepted.passes.fits
  have coinbase : (coinbaseBody accepted.checked.draft.shown accepted.height
      (emissionFor accepted.height (feeUnits accepted.txs)) accepted.cb
      accepted.checked.draft.cbOuts).dumpSize < accepted.stored.dumpSize :=
    Json.dumpSize_lt_of_get? (accepted.stored_get? "coinbase" _ rfl)
  obtain ⟨items, found, same⟩ := Option.bind_eq_some_iff.mp
    (coinbaseBody_outputs accepted.checked.draft.shown accepted.height
      (emissionFor accepted.height (feeUnits accepted.txs)) accepted.cb
      accepted.checked.draft.cbOuts)
  have outputs := Json.dumpSize_lt_of_get? found
  cases items with
  | array all =>
      cases same
      omega
  | _ => cases same

/-- The addresses and values that are paid. -/
def paidOutputs (outs : List CbOut) : List (Text × UInt64) :=
  (outs.filter fun out => out.units != 0).map fun out => (out.address, out.units)

theorem paidOutputs_eq (host : Host) (height : Nat) (outs : List CbOut) :
    paidOutputs outs =
      (coinbaseFrom host height outs).outputs.map fun output => (output.address, output.value) := by
  rw [paidOutputs, coinbaseFrom, List.map_map]
  rfl

/-- Outputs with addresses of the same lengths and with the same bytes. -/
theorem outputBytes_inj {first second : List TxOut}
    (sizes : first.map (fun output => output.address.size) =
      second.map fun output => output.address.size)
    (same : outputBytes first = outputBytes second) : first = second := by
  induction first generalizing second with
  | nil => exact (List.map_eq_nil_iff.mp sizes.symm).symm
  | cons output rest ih =>
      cases second with
      | nil => cases sizes
      | cons other others =>
          obtain ⟨size, restSizes⟩ := List.cons.inj sizes
          dsimp only at size
          have split : (u64Bytes output.value.toNat ++ sizedText output.address) ++
              outputBytes rest =
              (u64Bytes other.value.toNat ++ sizedText other.address) ++ outputBytes others := same
          obtain ⟨head, tail⟩ := List.append_inj split (by
            rw [List.length_append, List.length_append, u64Bytes, u64Bytes, length_leBytes,
              length_leBytes, sizedText, sizedText, List.length_append, List.length_append,
              u16Bytes,
              u16Bytes, length_leBytes, length_leBytes, Text.length_bytes, Text.length_bytes, size])
          obtain ⟨value, sized⟩ :=
            (delimits_leBytes 8).read output.value.toNat_lt other.value.toNat_lt head
          obtain ⟨_, text⟩ := List.append_inj sized (by
            rw [u16Bytes, u16Bytes, length_leBytes, length_leBytes])
          rw [ih restSizes tail]
          obtain ⟨paid, address⟩ := output
          obtain ⟨otherPaid, otherAddress⟩ := other
          rw [show paid = otherPaid from UInt64.toNat_inj.mp value,
            show address = otherAddress from Text.bytes_injective text]

/-- Coinbases of one height with the same bytes have the same number of outputs
and the same bytes in them. -/
theorem coinbaseFrom_bytes {host : Host} {height : Nat} {first second : List CbOut}
    (firstCount : (coinbaseFrom host height first).outputs.length < 2 ^ 32)
    (secondCount : (coinbaseFrom host height second).outputs.length < 2 ^ 32)
    (same : canonicalTx (coinbaseFrom host height first) =
      canonicalTx (coinbaseFrom host height second)) :
    (coinbaseFrom host height first).outputs.length =
        (coinbaseFrom host height second).outputs.length ∧
      outputBytes (coinbaseFrom host height first).outputs =
        outputBytes (coinbaseFrom host height second).outputs := by
  have nested : ∀ outs, canonicalTx (coinbaseFrom host height outs) =
      (Text.bytes "TX1".toList ++ u32Bytes 1 ++ [1] ++ u32Bytes 0) ++
        (leBytes 4 (coinbaseFrom host height outs).outputs.length ++
          (outputBytes (coinbaseFrom host height outs).outputs ++
            (u64Bytes 0 ++ u32Bytes height))) := by
    intro outs
    have flat : canonicalTx (coinbaseFrom host height outs) =
        Text.bytes "TX1".toList ++ u32Bytes 1 ++ [1] ++ u32Bytes 0 ++ [] ++
          u32Bytes (coinbaseFrom host height outs).outputs.length ++
          outputBytes (coinbaseFrom host height outs).outputs ++ u64Bytes 0 ++ u32Bytes height ++
          [] ++ [] := rfl
    rw [flat]
    simp only [List.append_nil, List.append_assoc, u32Bytes]
  rw [nested, nested] at same
  obtain ⟨count, outputs⟩ :=
    (delimits_leBytes 4).read firstCount secondCount (List.append_cancel_left same)
  exact ⟨count, List.append_cancel_right outputs⟩

/-- An admitted coinbase has fewer outputs than its stored block has bytes. -/
theorem AdmitsOutputs.count {host : Host} {height : Nat} {fee : UInt64} {coinbase : Json}
    {outs : List CbOut} (admitted : AdmitsOutputs host height fee coinbase outs) :
    (coinbaseFrom host height outs).outputs.length < 2 ^ 32 := by
  have fits := admitted.fits
  have length := Json.dumpSize_array
    ((outs.filter fun out => out.units != 0).map (cbOutToJson height))
  have count : (coinbaseFrom host height outs).outputs.length =
      (outs.filter fun out => out.units != 0).length := List.length_map _
  have limit : kMaxBlockBytes = 262144 := rfl
  rw [List.length_map] at length
  omega

/-- **Commitment.** Two admitted coinbases of one height and fee total with the
same canonical bytes pay the same exactly when their addresses have the same
lengths, output by output; they do when no address is longer than its 16-bit
length field can say. -/
theorem paidOutputs_eq_iff {host : Host} {height : Nat} {fee : UInt64} {coinbase other : Json}
    {first second : List CbOut} (firstAdmitted : AdmitsOutputs host height fee coinbase first)
    (secondAdmitted : AdmitsOutputs host height fee other second)
    (same : canonicalTx (coinbaseFrom host height first) =
      canonicalTx (coinbaseFrom host height second)) :
    (paidOutputs first = paidOutputs second ↔
      (paidOutputs first).map (fun paid => paid.1.size) =
        (paidOutputs second).map fun paid => paid.1.size) ∧
    ((∀ paid ∈ paidOutputs first, paid.1.size < 2 ^ 16) →
      (∀ paid ∈ paidOutputs second, paid.1.size < 2 ^ 16) →
      paidOutputs first = paidOutputs second) := by
  obtain ⟨count, bytes⟩ := coinbaseFrom_bytes firstAdmitted.count secondAdmitted.count same
  simp only [paidOutputs_eq host height, List.map_map, List.forall_mem_map, Function.comp_def]
  refine ⟨⟨fun pays => ?_, fun sizes => ?_⟩, fun firstShort secondShort => ?_⟩
  · have sizes := congrArg (List.map fun paid : Text × UInt64 => paid.1.size) pays
    simpa only [List.map_map, Function.comp_def] using sizes
  · rw [outputBytes_inj sizes bytes]
  · have outputs := (@Delimits.items _ _ _ _ delimits_output _ _ [] [] count firstShort secondShort
      (by rw [List.append_nil, List.append_nil]; exact bytes)).1
    rw [outputs]

section Swallowed

/-- The value and the length field of an output that pays one unit to an address
of one byte, as text. -/
def headText : Text :=
  [Char.ofNat 1, Char.ofNat 0, Char.ofNat 0, Char.ofNat 0, Char.ofNat 0, Char.ofNat 0,
    Char.ofNat 0, Char.ofNat 0, Char.ofNat 1, Char.ofNat 0]

/-- A coinbase of height 1 for the foundation as miner and for two validator
addresses. -/
def sharedPayout (first second : Text) : List CbOut :=
  [⟨"miner".toList, foundationPayout, 198⟩, ⟨"validator".toList, first, 1⟩,
    ⟨"validator".toList, second, 1⟩]

/-- The first address swallows the head of the second output, or the second
address takes in what the first one leaves. -/
theorem swallowed_bytes (host : Host) {rest : Text} (long : rest.size = 65526) :
    canonicalTx (coinbaseFrom host 1 (sharedPayout ('x' :: (headText ++ rest)) ['y'])) =
      canonicalTx (coinbaseFrom host 1 (sharedPayout ['x'] (rest ++ (headText ++ ['y'])))) := by
  have front : ∀ first second, canonicalTx (coinbaseFrom host 1 (sharedPayout first second)) =
      (Text.bytes "TX1".toList ++ u32Bytes 1 ++ [1] ++ u32Bytes 0 ++ [] ++ u32Bytes 3) ++
        ((u64Bytes 198 ++ sizedText foundationPayout) ++ ((u64Bytes 1 ++ sizedText first) ++
          ((u64Bytes 1 ++ sizedText second) ++ []))) ++ u64Bytes 0 ++ u32Bytes 1 ++ [] ++ [] :=
    fun first second => rfl
  have bytes : ∀ text more : Text, Text.bytes (text ++ more) = Text.bytes text ++ Text.bytes more :=
    fun text more => List.flatMap_append
  have head : Text.size headText = 10 ∧ Text.bytes headText = [1, 0, 0, 0, 0, 0, 0, 0, 1, 0] := by
    decide
  have letters : 'x'.utf8Size = 1 ∧ Text.size ['y'] = 1 ∧ Text.bytes ['y'] = [121] := by decide
  have length : u16Bytes 65537 = [1, 0] := by decide
  have swallowing : sizedText ('x' :: (headText ++ rest)) =
      [1, 0] ++ (120 :: (Text.bytes headText ++ Text.bytes rest)) := by
    have size : Text.size ('x' :: (headText ++ rest)) = 65537 := by
      rw [Text.size_cons, Text.size_append, long, head.1, letters.1]
    rw [sizedText, size, length, ← bytes]
    rfl
  have taking : sizedText (rest ++ (headText ++ ['y'])) =
      [1, 0] ++ (Text.bytes rest ++ (Text.bytes headText ++ [121])) := by
    have size : Text.size (rest ++ (headText ++ ['y'])) = 65537 := by
      rw [Text.size_append, Text.size_append, long, head.1, letters.2.1]
    rw [sizedText, size, length, bytes, bytes, letters.2.2]
  have short : sizedText ['x'] = [1, 0, 120] ∧ sizedText ['y'] = [1, 0, 121] := by decide
  have one : u64Bytes 1 = [1, 0, 0, 0, 0, 0, 0, 0] := by decide
  rw [front, front, swallowing, taking, short.1, short.2, head.2, one]
  simp only [List.append_assoc, List.cons_append, List.nil_append]

private theorem fits_payout {first second : Text}
    (small : (Json.quote first).size + (Json.quote second).size ≤ 200000) :
    (Json.array (((sharedPayout first second).filter fun out => out.units != 0).map
      (cbOutToJson 1))).dumpSize ≤ kMaxBlockBytes := by
  have written : ∀ out : CbOut, cbOutToJson 1 out = .object
      [("address", .string out.address), ("amount", .string (units314st out.units 1)),
        ("role", .string out.role), ("units", .unsigned out.units)] := fun out => by
    simp +decide only [cbOutToJson, Json.ofMembers, List.foldl_cons, List.foldl_nil, Json.assign,
      if_true, if_false]
  have keys : (Json.quote "address".toList).size = 9 ∧ (Json.quote "amount".toList).size = 8 ∧
      (Json.quote "role".toList).size = 6 ∧ (Json.quote "units".toList).size = 7 := by decide
  have marks : ':'.utf8Size = 1 ∧ ','.utf8Size = 1 ∧ '['.utf8Size = 1 ∧ ']'.utf8Size = 1 ∧
      '\x7b'.utf8Size = 1 ∧ '\x7d'.utf8Size = 1 := by decide
  have dumped : ∀ out : CbOut, (cbOutToJson 1 out).dump.size = (Json.quote out.address).size +
      ((Json.quote (units314st out.units 1)).size + (Json.quote out.role).size +
        (Json.decimal out.units.toNat).size + 39) := by
    intro out
    rw [written]
    simp only [Json.dump, Json.dumpMembers, Text.size_append, Text.size_cons, Text.size_nil, keys,
      marks]
    omega
  have three : ∀ one two last : CbOut,
      (Json.array ([one, two, last].map (cbOutToJson 1))).dump.size =
        (cbOutToJson 1 one).dump.size + (cbOutToJson 1 two).dump.size +
          (cbOutToJson 1 last).dump.size + 4 := by
    intro one two last
    simp only [List.map_cons, List.map_nil, Json.dump, Json.dumpItems, Text.size_append,
      Text.size_cons, Text.size_nil, marks]
    omega
  have miner : (cbOutToJson 1 ⟨"miner".toList, foundationPayout, 198⟩).dump.size ≤ 300 := by
    decide +kernel
  have validator : ∀ address : Text, (cbOutToJson 1 ⟨"validator".toList, address, 1⟩).dump.size ≤
      (Json.quote address).size + 100 := by
    intro address
    have overhead : (Json.quote (units314st 1 1)).size + (Json.quote "validator".toList).size +
        (Json.decimal (1 : UInt64).toNat).size + 39 ≤ 100 := by
      decide +kernel
    rw [dumped]
    exact Nat.add_le_add_left overhead _
  have whole := three ⟨"miner".toList, foundationPayout, 198⟩ ⟨"validator".toList, first, 1⟩
    ⟨"validator".toList, second, 1⟩
  have firstSize := validator first
  have secondSize := validator second
  change _ ≤ 262144
  refine Nat.le_trans (Nat.le_of_eq whole) ?_
  generalize (cbOutToJson 1 ⟨"miner".toList, foundationPayout, 198⟩).dump.size = minerSize at *
  generalize (cbOutToJson 1 ⟨"validator".toList, first, 1⟩).dump.size = one at *
  generalize (cbOutToJson 1 ⟨"validator".toList, second, 1⟩).dump.size = two at *
  clear dumped three written
  omega

private theorem size_quote (text : Text) :
    (Json.quote text).size = Text.size (text.flatMap Json.escapeChar) + 2 := by
  have marks : '"'.utf8Size = 1 ∧ Text.size ['"'] = 1 := by decide
  rw [Json.quote, Text.size_cons, Text.size_append, marks.1, marks.2]
  omega

/-- The coinbase is admitted from the document in which it is stored. -/
private theorem admits_sharedPayout (host : Host) (first second : Text) (firstNe : first ≠ [])
    (secondNe : second ≠ []) (small : (Json.quote first).size + (Json.quote second).size ≤ 200000) :
    AdmitsOutputs host 1 0
      (coinbaseBody foundationPayout 1 (emissionFor 1 0)
        (coinbaseFrom host 1 (sharedPayout first second)) (sharedPayout first second))
      (sharedPayout first second) := by
  refine ⟨⟨foundationPayout, ?_⟩, ?_, ⟨_, checkCoinbase_ok.mpr ⟨rfl, ?_, ?_⟩⟩, fits_payout small⟩
  · refine Accepted.readCbOuts_coinbaseBody ?_ ?_ _ _ _ _
    · simp only [sharedPayout, List.forall_mem_cons]
      exact ⟨fun _ => by decide, fun _ => firstNe, fun _ => secondNe, fun _ none => nomatch none⟩
    · simp only [sharedPayout, List.forall_mem_cons]
      exact ⟨fun _ => trivial, fun other => absurd other (by decide),
        fun other => absurd other (by decide), fun _ none => nomatch none⟩
  · rfl
  · exact List.cons_ne_nil _ _
  · intro txid written
    exact Option.some.inj (written.symm.trans (Accepted.coinbaseBody_txid _ _ _ _ _))

/-- The outputs of the sample miner, and the same ones with one more that pays nothing. -/
private def paddedOuts : List CbOut :=
  sampleOuts plainAddress ++ [⟨"validator".toList, capitalAddress, 0⟩]

private theorem admits_sample {outs : List CbOut}
    (listed : outs ∈ [sampleOuts plainAddress, paddedOuts]) :
    AdmitsOutputs (Host.ofTables [] []) 1 0 (sampleCoinbase 1 outs) outs := by
  have read : ∀ outs ∈ [sampleOuts plainAddress, paddedOuts],
      readCbOuts sampleAddress (sampleCoinbase 1 outs) = .ok outs ∧
      checkPaid 1 (emissionFor 1 0) 0 outs = .ok () ∧
      checkCoinbase (Host.ofTables [] []) 1 (sampleCoinbase 1 outs) outs =
        .ok (coinbaseFrom (Host.ofTables [] []) 1 outs) ∧
      (Json.array ((outs.filter fun out => out.units != 0).map (cbOutToJson 1))).dumpSize ≤
        kMaxBlockBytes := by
    decide +kernel
  obtain ⟨outputs, paid, checked, fits⟩ := read outs listed
  exact ⟨⟨sampleAddress, outputs⟩, paid, ⟨_, checked⟩, fits⟩

/-- Two lists with the same canonical bytes pay the same. -/
theorem paidOutputs_eq_iff_padded :
    ∃ (host : Host) (coinbase other : Json) (first second : List CbOut),
      AdmitsOutputs host 1 0 coinbase first ∧ AdmitsOutputs host 1 0 other second ∧
        first.length ≠ second.length ∧ paidOutputs first = paidOutputs second := by
  have first := admits_sample List.mem_cons_self
  have second := admits_sample (List.mem_cons_of_mem _ (List.mem_singleton_self paddedOuts))
  have same : canonicalTx (coinbaseFrom (Host.ofTables [] []) 1 (sampleOuts plainAddress)) =
      canonicalTx (coinbaseFrom (Host.ofTables [] []) 1 paddedOuts) := by
    decide +kernel
  have short : (∀ paid ∈ paidOutputs (sampleOuts plainAddress), paid.1.size < 2 ^ 16) ∧
      ∀ paid ∈ paidOutputs paddedOuts, paid.1.size < 2 ^ 16 := by
    decide +kernel
  exact ⟨_, _, _, _, _, first, second, by decide,
    (paidOutputs_eq_iff first second same).2 short.1 short.2⟩

/-- **Not without the bound.** Two admitted coinbases with the same canonical bytes
that pay different addresses. -/
theorem paidOutputs_ambiguous :
    ∃ (host : Host) (coinbase other : Json) (first second : List CbOut),
      AdmitsOutputs host 1 0 coinbase first ∧ AdmitsOutputs host 1 0 other second ∧
        canonicalTx (coinbaseFrom host 1 first) = canonicalTx (coinbaseFrom host 1 second) ∧
        paidOutputs first ≠ paidOutputs second := by
  let host := Host.ofTables [] []
  let rest : Text := List.replicate 65526 'z'
  have long : rest.size = 65526 := by
    change ((List.replicate 65526 'z').map Char.utf8Size).sum = 65526
    rw [List.map_replicate, List.sum_replicate]
    rfl
  have escaped : ∀ count, (List.replicate count 'z').flatMap Json.escapeChar =
      List.replicate count 'z' := by
    intro count
    induction count with
    | zero => rfl
    | succ count ih =>
        rw [List.replicate_succ, List.flatMap_cons, ih]
        rfl
  have head : Text.size (headText.flatMap Json.escapeChar) = 60 := by decide
  have ends : (Json.quote ['x']).size = 3 ∧ (Json.quote ['y']).size = 3 := by decide
  have letters : ('x' :: (headText ++ rest)).flatMap Json.escapeChar =
      'x' :: (headText.flatMap Json.escapeChar ++ rest.flatMap Json.escapeChar) ∧
      ['y'].flatMap Json.escapeChar = ['y'] := by
    rw [← List.flatMap_append]
    exact ⟨rfl, rfl⟩
  have sizes : 'x'.utf8Size = 1 ∧ Text.size ['y'] = 1 := by decide
  have swallowing := admits_sharedPayout host ('x' :: (headText ++ rest)) ['y']
    (List.cons_ne_nil _ _) (List.cons_ne_nil _ _) (by
      rw [size_quote, letters.1, Text.size_cons, Text.size_append, head, escaped, sizes.1, ends.2]
      change 1 + (60 + rest.size) + 2 + 3 ≤ 200000
      omega)
  have taking := admits_sharedPayout host ['x'] (rest ++ (headText ++ ['y']))
    (List.cons_ne_nil _ _)
    (fun none => List.cons_ne_nil _ _ (List.append_eq_nil_iff.mp none).2) (by
      rw [size_quote (rest ++ _), List.flatMap_append, List.flatMap_append, letters.2,
        Text.size_append, Text.size_append, head, escaped, sizes.2, ends.1]
      change 3 + (rest.size + (60 + 1) + 2) ≤ 200000
      omega)
  refine ⟨host, _, _, _, _, swallowing, taking, swallowed_bytes host long, ?_⟩
  intro same
  obtain ⟨address, _⟩ := Prod.mk.inj (List.cons.inj (List.cons.inj same).2).1
  exact absurd (List.cons.inj address).2 (List.cons_ne_nil _ _)

end Swallowed

end PiSecure
