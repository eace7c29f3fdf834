import PiSecure.General.Words
import PiSecure.Theory.Spending

/-! # The balance of a transaction in exact numbers

`check_spendable` guards the sum of the inputs against overflow, and adds up the
outputs, the fee, the lock and the release without a guard. What it compares are
remainders modulo the size of a word, so the balance that it accepts holds of the
exact numbers just when both sides wrap alike.
-/

namespace PiSecure

/-- What a transaction pays out, without wrapping: its outputs, its fee and its
lock. -/
def paidOut (tx : Tx) : Nat :=
  (tx.outputs.map fun output => output.value.toNat).sum + tx.fee.toNat + tx.escrowLock.toNat

section Balance

variable (utxo : UtxoSet) (tx : Tx) (height : Nat) (prior : List Tx) (release : UInt64)

/-- What a transaction puts in at a height, without wrapping: the worth of its
inputs and what it releases. -/
def putIn : Nat :=
  ((tx.inputs.map TxIn.outpoint).map (pointWorth utxo prior height)).sum + release.toNat

/-- A transaction puts in what it pays out, and exactly that when it is about a
flag. -/
structure Balanced : Prop where
  covered : paidOut tx ≤ putIn utxo tx height prior release
  level : tx.flagKind ≠ .none → putIn utxo tx height prior release = paidOut tx

/-- What a transaction pays out wraps no more often than what it puts in, and as
often when it is about a flag. -/
structure WrapsAlike : Prop where
  covered : paidOut tx / 2 ^ 64 ≤ putIn utxo tx height prior release / 2 ^ 64
  level : tx.flagKind ≠ .none →
    putIn utxo tx height prior release / 2 ^ 64 = paidOut tx / 2 ^ 64

end Balance

/-- The need that `check_spendable` computes is what is paid out modulo the size
of a word. -/
theorem toNat_need (tx : Tx) :
    (sumOutputs tx.outputs + tx.fee + tx.escrowLock).toNat = paidOut tx % 2 ^ 64 := by
  have outputs := toNat_foldl_add_mod TxOut.value tx.outputs 0
  rw [UInt64.toNat_zero, Nat.zero_add] at outputs
  change (sumOutputs tx.outputs).toNat = _ at outputs
  rw [UInt64.toNat_add, UInt64.toNat_add, outputs, Nat.mod_add_mod, Nat.add_assoc, Nat.mod_add_mod,
    ← Nat.add_assoc]
  rfl

variable {utxo : UtxoSet} {tx : Tx} {height : Nat} {prior : List Tx} {release : UInt64}

/-- What `check_spendable` compares: the remainders of the exact sums. -/
theorem checkSpendable_mod (passed : checkSpendable utxo tx height prior release = .ok ()) :
    paidOut tx % 2 ^ 64 ≤ putIn utxo tx height prior release % 2 ^ 64 ∧
      (tx.flagKind ≠ .none →
        putIn utxo tx height prior release % 2 ^ 64 = paidOut tx % 2 ^ 64) := by
  obtain ⟨_, _, total, summed, level, covered⟩ := checkSpendable_ok.mp passed
  have counted := sumInputs_total summed
  rw [UInt64.toNat_zero, Nat.zero_add] at counted
  have available : (total + release).toNat = putIn utxo tx height prior release % 2 ^ 64 := by
    rw [UInt64.toNat_add, counted]
    rfl
  rw [← available, ← toNat_need]
  refine ⟨?_, fun flagged => congrArg UInt64.toNat (level flagged)⟩
  by_cases plain : tx.flagKind = .none
  · exact UInt64.le_iff_toNat_le.mp (covered plain)
  · exact Nat.le_of_eq (congrArg UInt64.toNat (level plain)).symm

/-- A transaction that `check_spendable` accepts balances in exact numbers just
when both sides wrap alike. -/
theorem balanced_iff_wrapsAlike
    (passed : checkSpendable utxo tx height prior release = .ok ()) :
    Balanced utxo tx height prior release ↔ WrapsAlike utxo tx height prior release := by
  obtain ⟨covered, level⟩ := checkSpendable_mod passed
  constructor
  · intro balanced
    exact ⟨Nat.div_le_div_right balanced.covered,
      fun flagged => congrArg (· / 2 ^ 64) (balanced.level flagged)⟩
  · intro alike
    have quotients := alike.covered
    refine ⟨by omega, fun flagged => ?_⟩
    have quotient := alike.level flagged
    have remainder := level flagged
    omega

/-- A transaction that pays out less than a word holds is covered by what it
puts in. -/
theorem checkSpendable_le (passed : checkSpendable utxo tx height prior release = .ok ())
    (fits : paidOut tx < 2 ^ 64) : paidOut tx ≤ putIn utxo tx height prior release := by
  have covered := (checkSpendable_mod passed).1
  rw [Nat.mod_eq_of_lt fits] at covered
  exact Nat.le_trans covered (Nat.mod_le _ _)

section Lone

private def spentPoint : Outpoint := (Digest.zero, 0)

/-- A single coin of 5000 units. -/
private def lone : UtxoSet :=
  (∅ : UtxoSet).insert spentPoint ⟨5000, "genesis".toList, 1⟩

private def spendingLone (values : List UInt64) : Tx where
  fee := 1000
  inputs := [⟨spentPoint.1, spentPoint.2, [], []⟩]
  outputs := values.map fun value => ⟨value, "heir".toList⟩

/-- Outputs that do not wrap balance. -/
theorem balanced_iff_wrapsAlike_lone :
    checkSpendable lone (spendingLone [4000]) 1 [] 0 = .ok () ∧
      Balanced lone (spendingLone [4000]) 1 [] 0 :=
  have passed : checkSpendable lone (spendingLone [4000]) 1 [] 0 = .ok () := by decide +kernel
  ⟨passed, (balanced_iff_wrapsAlike passed).mpr
    ⟨by decide +kernel, fun flagged => absurd rfl flagged⟩⟩

/-- Two outputs of half the size of a word vanish from the sum, so a coin of
5000 units pays for them. -/
theorem not_forall_balanced : ¬∀ (utxo : UtxoSet) (tx : Tx) (height : Nat) (prior : List Tx)
    (release : UInt64), (tx.inputs.map TxIn.outpoint).Nodup →
      checkSpendable utxo tx height prior release = .ok () →
        Balanced utxo tx height prior release := by
  intro balanced
  have covered := (balanced lone (spendingLone [2 ^ 63, 2 ^ 63, 4000]) 1 [] 0 (by decide +kernel)
    (by decide +kernel)).covered
  revert covered
  decide +kernel

end Lone

end PiSecure
