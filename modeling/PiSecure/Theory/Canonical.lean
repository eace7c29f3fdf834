import PiSecure.Model.Coinbase

/-! # What canonical bytes determine

Two transactions with the same canonical bytes have the same inputs, and two
coinbases with the same canonical bytes are of the same height. Ids stand for
canonical bytes only as far as the hash has no collision on them.
-/

namespace PiSecure

theorem length_inputBytes (inputs : List TxIn) :
    (inputBytes inputs).length = 36 * inputs.length := by
  induction inputs with
  | nil => rfl
  | cons input rest ih =>
      change ((input.prev.bytes ++ u32Bytes input.vout.toNat) ++ inputBytes rest).length = _
      rw [List.length_append, List.length_append, input.prev.size_eq, u32Bytes, length_leBytes, ih,
        List.length_cons]
      omega

theorem u32Bytes_inj {first second : Nat} (firstBelow : first < 2 ^ 32)
    (secondBelow : second < 2 ^ 32) (same : u32Bytes first = u32Bytes second) : first = second := by
  have residues : first % 2 ^ 32 = second % 2 ^ 32 := leBytes_inj same
  rw [Nat.mod_eq_of_lt firstBelow, Nat.mod_eq_of_lt secondBelow] at residues
  exact residues

/-- The bytes of inputs determine their outpoints. -/
theorem inputBytes_inj {first second : List TxIn} (length : first.length = second.length)
    (same : inputBytes first = inputBytes second) :
    first.map TxIn.outpoint = second.map TxIn.outpoint := by
  induction first generalizing second with
  | nil =>
      rw [List.length_nil, eq_comm, List.length_eq_zero_iff] at length
      rw [length]
  | cons input rest ih =>
      cases second with
      | nil => cases length
      | cons other others =>
          change (input.prev.bytes ++ u32Bytes input.vout.toNat) ++ inputBytes rest =
            (other.prev.bytes ++ u32Bytes other.vout.toNat) ++ inputBytes others at same
          have sized : (input.prev.bytes ++ u32Bytes input.vout.toNat).length =
              (other.prev.bytes ++ u32Bytes other.vout.toNat).length := by
            rw [List.length_append, List.length_append, input.prev.size_eq, other.prev.size_eq,
              u32Bytes, u32Bytes, length_leBytes, length_leBytes]
          obtain ⟨head, tail⟩ := List.append_inj same sized
          obtain ⟨prev, vout⟩ := List.append_inj head
            (by rw [input.prev.size_eq, other.prev.size_eq])
          have prevEq : input.prev = other.prev := Digest.ext_bytes prev
          have voutEq : input.vout = other.vout :=
            UInt32.toNat_inj.mp (u32Bytes_inj input.vout.toNat_lt other.vout.toNat_lt vout)
          rw [List.map_cons, List.map_cons, ih (Nat.succ.inj length) tail, TxIn.outpoint,
            TxIn.outpoint, prevEq, voutEq]

/-- The rest of canonical bytes after the inputs. -/
private def canonicalTail (tx : Tx) : Bytes :=
  u32Bytes tx.outputs.length ++ outputBytes tx.outputs ++ u64Bytes tx.fee.toNat ++
    u32Bytes (if tx.coinbase then tx.height else 0) ++ flagBytes tx ++ regBytes tx

private theorem canonicalTx_eq (tx : Tx) :
    canonicalTx tx = (Text.bytes "TX1".toList ++ u32Bytes tx.version) ++
      ([if tx.coinbase then 1 else 0] ++ (u32Bytes tx.inputs.length ++
        (inputBytes tx.inputs ++ canonicalTail tx))) := by
  simp only [canonicalTx, canonicalTail, List.append_assoc]

/-- Equal canonical bytes come from the same kind of transaction with the same
inputs. -/
theorem canonicalTx_inputs {first second : Tx} (firstBelow : first.inputs.length < 2 ^ 32)
    (secondBelow : second.inputs.length < 2 ^ 32) (same : canonicalTx first = canonicalTx second) :
    first.coinbase = second.coinbase ∧
      first.inputs.map TxIn.outpoint = second.inputs.map TxIn.outpoint := by
  rw [canonicalTx_eq, canonicalTx_eq] at same
  obtain ⟨_, afterHead⟩ := List.append_inj same (by
    rw [List.length_append, List.length_append, u32Bytes, u32Bytes, length_leBytes,
      length_leBytes])
  obtain ⟨kind, afterKind⟩ := List.append_inj afterHead rfl
  obtain ⟨count, afterCount⟩ := List.append_inj afterKind (by
    rw [u32Bytes, u32Bytes, length_leBytes, length_leBytes])
  have length := u32Bytes_inj firstBelow secondBelow count
  obtain ⟨inputs, _⟩ := List.append_inj afterCount (by
    rw [length_inputBytes, length_inputBytes, length])
  refine ⟨?_, inputBytes_inj length inputs⟩
  cases firstKind : first.coinbase <;> cases secondKind : second.coinbase <;>
    simp [firstKind, secondKind] at kind ⊢

/-- Equal canonical bytes of coinbases are of the same height. -/
theorem canonicalTx_height {first second : Tx} (firstCoinbase : first.coinbase = true)
    (secondCoinbase : second.coinbase = true) (firstPlain : flagBytes first ++ regBytes first = [])
    (secondPlain : flagBytes second ++ regBytes second = []) (firstBelow : first.height < 2 ^ 32)
    (secondBelow : second.height < 2 ^ 32) (same : canonicalTx first = canonicalTx second) :
    first.height = second.height := by
  rw [canonicalTx, canonicalTx, List.append_assoc _ (flagBytes first),
    List.append_assoc _ (flagBytes second), firstPlain, secondPlain, List.append_nil,
    List.append_nil, firstCoinbase, secondCoinbase] at same
  obtain ⟨_, height⟩ := List.append_inj' same (by
    rw [u32Bytes, u32Bytes, length_leBytes, length_leBytes])
  exact u32Bytes_inj firstBelow secondBelow height

/-- No two of the transactions have the same id without having the same
canonical bytes. -/
def CollisionFree (txs : List Tx) : Prop :=
  ∀ first ∈ txs, ∀ second ∈ txs, first.txid = second.txid → canonicalTx first = canonicalTx second

theorem CollisionFree.mono {txs more : List Tx} (free : CollisionFree more) (sub : txs ⊆ more) :
    CollisionFree txs :=
  fun first firstIn second secondIn => free first (sub firstIn) second (sub secondIn)

end PiSecure
