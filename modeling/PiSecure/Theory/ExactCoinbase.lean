import Mathlib.Tactic.IntervalCases
import PiSecure.General.Words
import PiSecure.Theory.Emission
import PiSecure.Theory.Mining

/-! # What a coinbase pays in exact numbers

The rules of a coinbase compare sums of words with shares of a sum of words. The
exact sums follow the exact shares just when no product of the fees wraps where
the payments do not.
-/

namespace PiSecure

/-- The fees of transactions, without wrapping. -/
def exactFees (txs : List Tx) : Nat := (txs.map fun tx => tx.fee.toNat).sum

section Outputs

variable (height fees : Nat) (outs : List CbOut)

/-- The outputs of a coinbase pay exactly the subsidy and the shares of the fees. -/
structure ExactlyPaid : Prop where
  miner : ∃ subsidy ∈ minerSubsidies height,
    roleTotal "miner".toList outs = subsidy + 60 * fees / 100
  validator : roleTotal "validator".toList outs = validatorSubsidy height
  stakers : roleTotal "stakers".toList outs ≤ 20 * fees / 100
  loans : roleTotal "loans".toList outs ≤ 8 * fees / 100
  foundation : roleTotal "foundation".toList outs = 7 * fees / 100

/-- What validation establishes: the same of the remainders modulo the size of a
word. -/
structure PaidModulo : Prop where
  miner : ∃ subsidy ∈ minerSubsidies height,
    roleTotal "miner".toList outs % 2 ^ 64 = subsidy + 60 * fees % 2 ^ 64 / 100
  validator : roleTotal "validator".toList outs % 2 ^ 64 = validatorSubsidy height
  stakers : roleTotal "stakers".toList outs % 2 ^ 64 ≤ 20 * fees % 2 ^ 64 / 100
  loans : roleTotal "loans".toList outs % 2 ^ 64 ≤ 8 * fees % 2 ^ 64 / 100
  foundation : roleTotal "foundation".toList outs % 2 ^ 64 = 7 * fees % 2 ^ 64 / 100

/-- The sums of a coinbase wrap as often as the shares of the fees reach the size
of a word, and the largest share has no product that wraps beyond that. -/
structure SharesWrapAlike : Prop where
  product : 60 * (fees % (100 * 2 ^ 64)) < 2 ^ 64
  miner : roleTotal "miner".toList outs / 2 ^ 64 = 60 * (fees / (100 * 2 ^ 64))
  validator : roleTotal "validator".toList outs < 2 ^ 64
  stakers : roleTotal "stakers".toList outs / 2 ^ 64 ≤ 20 * (fees / (100 * 2 ^ 64))
  loans : roleTotal "loans".toList outs / 2 ^ 64 ≤ 8 * (fees / (100 * 2 ^ 64))
  foundation : roleTotal "foundation".toList outs / 2 ^ 64 = 7 * (fees / (100 * 2 ^ 64))

end Outputs

/-! ## Arithmetic of wrapped shares -/

section Shares

/-- The miner's and the foundation's share are both right only when the product
of the miner's share does not wrap. -/
private theorem product_fits {rest : Nat} (below : rest < 100 * 2 ^ 64)
    (miner : 60 * rest / 2 ^ 64 % 100 = 0) (foundation : 7 * rest / 2 ^ 64 % 100 = 0) :
    60 * rest < 2 ^ 64 := by
  obtain ⟨hundreds, wraps⟩ := Nat.dvd_of_mod_eq_zero foundation
  obtain ⟨more, others⟩ := Nat.dvd_of_mod_eq_zero miner
  have few : hundreds < 7 := by omega
  have side := Nat.lt_or_ge more (60 * hundreds / 7 + 1)
  interval_cases hundreds <;> omega

/-- A share with a subsidy beside it is exact only when its product wraps by
whole shares. -/
private theorem wraps_whole {product due paid subsidy : Nat}
    (remainder : paid % 2 ^ 64 = due + product % 2 ^ 64 / 100)
    (subsidies : subsidy = due ∨ subsidy + 18 = due ∨ subsidy = due + 18)
    (whole : paid = subsidy + product / 100) : product / 2 ^ 64 % 100 = 0 := by
  rcases subsidies with same | same | same <;> omega

/-- Two subsidies of one height are the same or the two of the early heights. -/
private theorem minerSubsidies_apart {height first second : Nat}
    (firstIn : first ∈ minerSubsidies height) (secondIn : second ∈ minerSubsidies height) :
    first ≤ 216000 ∧ (first = second ∨ first + 18 = second ∨ first = second + 18) := by
  unfold minerSubsidies at firstIn secondIn
  split at firstIn
  next early =>
    rw [if_pos early] at secondIn
    simp only [List.mem_cons, List.not_mem_nil, or_false] at firstIn secondIn
    omega
  next late =>
    rw [if_neg late] at secondIn
    split at firstIn
    next old =>
      rw [if_pos old, List.mem_singleton] at secondIn
      rw [List.mem_singleton] at firstIn
      omega
    next pi =>
      rw [if_neg pi, List.mem_singleton] at secondIn
      rw [List.mem_singleton] at firstIn
      omega

/-- Fees are whole hundreds of words and a rest. -/
private theorem fees_split (fees : Nat) :
    fees = 100 * 2 ^ 64 * (fees / (100 * 2 ^ 64)) + fees % (100 * 2 ^ 64) ∧
      fees % (100 * 2 ^ 64) < 100 * 2 ^ 64 :=
  ⟨(Nat.div_add_mod _ _).symm, Nat.mod_lt _ (by omega)⟩

/-- A share whose product does not wrap over the rest is a whole number of words
and its wrapped value. -/
private theorem share_split {fees hundreds rest percent : Nat}
    (whole : fees = 100 * 2 ^ 64 * hundreds + rest) (product : percent * rest < 2 ^ 64) :
    percent * fees / 100 = 2 ^ 64 * (percent * hundreds) + percent * fees % 2 ^ 64 / 100 := by
  have scaled : percent * fees = 100 * 2 ^ 64 * (percent * hundreds) + percent * rest := by
    rw [whole, Nat.mul_add, Nat.mul_left_comm]
  rw [scaled]
  omega

/-- Only the rest of the fees decides how often a product wraps beyond whole
shares. -/
private theorem wraps_rest {fees hundreds rest percent : Nat}
    (whole : fees = 100 * 2 ^ 64 * hundreds + rest) :
    percent * fees / 2 ^ 64 % 100 = percent * rest / 2 ^ 64 % 100 := by
  have scaled : percent * fees = 2 ^ 64 * (100 * (percent * hundreds)) + percent * rest := by
    rw [whole, Nat.mul_add, Nat.mul_left_comm, Nat.mul_comm 100, Nat.mul_assoc]
  rw [scaled, Nat.mul_add_div (by decide), Nat.mul_add_mod]

variable {height fees : Nat} {outs : List CbOut}

/-- Exact payments wrap as the shares do. -/
private theorem sharesWrapAlike_of_exactlyPaid (modulo : PaidModulo height fees outs)
    (exactly : ExactlyPaid height fees outs) : SharesWrapAlike fees outs := by
  obtain ⟨whole, below⟩ := fees_split fees
  obtain ⟨due, dueIn, remainder⟩ := modulo.miner
  obtain ⟨subsidy, subsidyIn, miner⟩ := exactly.miner
  obtain ⟨small, apart⟩ := minerSubsidies_apart subsidyIn dueIn
  have foundation := exactly.foundation
  have minerWraps := wraps_whole remainder apart miner
  have foundationWraps : 7 * fees / 2 ^ 64 % 100 = 0 :=
    @wraps_whole _ 0 _ 0 (modulo.foundation.trans (Nat.zero_add _).symm) (.inl rfl)
      (foundation.trans (Nat.zero_add _).symm)
  have stakers := exactly.stakers
  have loans := exactly.loans
  have paid : validatorSubsidy height ≤ 2000 := by
    unfold validatorSubsidy
    split <;> omega
  rw [wraps_rest whole] at minerWraps foundationWraps
  have product := product_fits below minerWraps foundationWraps
  rw [share_split whole product] at miner
  rw [@share_split _ _ _ 20 whole (by omega)] at stakers
  rw [@share_split _ _ _ 8 whole (by omega)] at loans
  rw [@share_split _ _ _ 7 whole (by omega)] at foundation
  refine ⟨product, ?_, ?_, ?_, ?_, ?_⟩
  · omega
  · rw [exactly.validator]
    omega
  · omega
  · omega
  · omega

/-- Payments that wrap as the shares do are exact. -/
private theorem exactlyPaid_of_sharesWrapAlike (modulo : PaidModulo height fees outs)
    (alike : SharesWrapAlike fees outs) : ExactlyPaid height fees outs := by
  obtain ⟨whole, below⟩ := fees_split fees
  obtain ⟨due, dueIn, remainder⟩ := modulo.miner
  obtain ⟨product, miner, validator, stakers, loans, foundation⟩ := alike
  have minerShare := share_split whole product
  have stakersShare := @share_split _ _ _ 20 whole (by omega)
  have loansShare := @share_split _ _ _ 8 whole (by omega)
  have foundationShare := @share_split _ _ _ 7 whole (by omega)
  refine ⟨⟨due, dueIn, ?_⟩, ?_, ?_, ?_, ?_⟩
  · rw [minerShare, ← miner]
    omega
  · rw [← modulo.validator, Nat.mod_eq_of_lt validator]
  · have bound := modulo.stakers
    rw [stakersShare]
    omega
  · have bound := modulo.loans
    rw [loansShare]
    omega
  · rw [foundationShare, ← foundation, ← modulo.foundation]
    exact (Nat.div_add_mod _ _).symm

/-- Payments that follow the rules modulo the size of a word are exact just when
they wrap as the shares do. -/
theorem PaidModulo.exactly_iff (modulo : PaidModulo height fees outs) :
    ExactlyPaid height fees outs ↔ SharesWrapAlike fees outs :=
  ⟨sharesWrapAlike_of_exactlyPaid modulo, exactlyPaid_of_sharesWrapAlike modulo⟩

end Shares

/-! ## Accepted blocks -/

/-- A share of fees that were added up in words. -/
private theorem share_modulo {fee percent : UInt64} {fees : Nat} (sum : fee.toNat = fees % 2 ^ 64) :
    (fee * percent / 100).toNat = percent.toNat * fees % 2 ^ 64 / 100 := by
  rw [UInt64.toNat_div, UInt64.toNat_mul, sum, Nat.mod_mul_mod, Nat.mul_comm]
  rfl

/-- What the rules of a coinbase establish. -/
theorem paidModulo_of_checkPaid {height fees : Nat} {fee : UInt64} {outs : List CbOut}
    (paid : checkPaid height (emissionFor height fee) fee outs = .ok ())
    (sum : fee.toNat = fees % 2 ^ 64) : PaidModulo height fees outs := by
  simp only [checkPaid, bind_eq_ok, require_ok, refuse_ok] at paid
  obtain ⟨amounts, summed, _, capped, _, subsidy, _⟩ := paid
  obtain ⟨⟨due, admitted, miner⟩, validator⟩ := coinbaseSubsidyOk_ok subsidy
  simp only [Bool.not_eq_true', Bool.or_eq_false_iff, decide_eq_false_iff_not, bne_eq_false_iff_eq,
    gt_iff_lt, UInt64.not_lt] at capped
  obtain ⟨⟨stakers, loans⟩, foundation⟩ := capped
  refine ⟨⟨due, admitted, ?_⟩, ?_, ?_, ?_, ?_⟩
  · rw [← sum_addPaid summed]
    exact miner.trans (congrArg (due + ·) (share_modulo sum))
  · rw [← sum_addPaid summed]
    exact validator
  · rw [← sum_addPaid summed]
    exact Nat.le_trans (UInt64.le_iff_toNat_le.mp stakers) (Nat.le_of_eq (share_modulo sum))
  · rw [← sum_addPaid summed]
    exact Nat.le_trans (UInt64.le_iff_toNat_le.mp loans) (Nat.le_of_eq (share_modulo sum))
  · rw [← sum_addPaid summed]
    exact (congrArg UInt64.toNat foundation).trans (share_modulo sum)

variable {host : Host}

/-- The fees of a block are their exact sum modulo the size of a word. -/
theorem toNat_feeUnits (txs : List Tx) : (feeUnits txs).toNat = exactFees txs % 2 ^ 64 := by
  have whole := toNat_foldl_add_mod Tx.fee txs 0
  rw [UInt64.toNat_zero, Nat.zero_add] at whole
  exact whole

/-- The coinbase of an accepted block pays exactly the subsidies and the shares of
the exact fees just when its sums wrap as the shares do. -/
theorem coinbase_exact_iff (accepted : Accepted host) :
    ExactlyPaid accepted.height (exactFees accepted.txs) accepted.checked.draft.cbOuts ↔
      SharesWrapAlike (exactFees accepted.txs) accepted.checked.draft.cbOuts := by
  obtain ⟨payout, drafted⟩ := accepted.passes.drafted
  exact (paidModulo_of_checkPaid drafted.paid (toNat_feeUnits accepted.txs)).exactly_iff

section Minting

private def mintingTxid : Digest :=
  ⟨[0xa2, 0xa9, 0xfa, 0x14, 0x45, 0xa0, 0x09, 0x4d, 0x9f, 0x44, 0x02, 0x69, 0x33, 0x5f, 0x48, 0xc3,
    0xec, 0x35, 0x8e, 0x1e, 0x18, 0x03, 0xb0, 0xc8, 0xc2, 0x99, 0xff, 0x17, 0xfe, 0x80, 0x48, 0x3f],
    rfl⟩

private def mintingHash : Digest :=
  ⟨[0x0c, 0x99, 0x82, 0xc1, 0x1b, 0xee, 0x61, 0x04, 0x21, 0xf8, 0x24, 0xcc, 0x10, 0xa5, 0x55, 0xc1,
    0x49, 0x69, 0x52, 0x84, 0xdf, 0x5a, 0x9e, 0xd5, 0x60, 0xc0, 0x25, 0xb0, 0x49, 0x91, 0x95, 0x81],
    rfl⟩

/-- The subsidies, and two outputs of half a word each to the validator. -/
private def mintingOuts : List CbOut :=
  sampleOuts plainAddress ++
    List.replicate 2 ⟨"validator".toList, plainAddress, 0x8000000000000000⟩

private def mintingBlock : MinedBlock where
  height := 1
  prev := Digest.zero
  root := mintingTxid
  stamp := 100
  difficulty := 4
  coinbase := sampleCoinbase 1 mintingOuts
  txs := []
  work := sampleWork 10 mintingHash

/-- A first block is accepted whose validator gets 2^64 units more than its
subsidy. -/
theorem coinbase_mints :
    ¬∀ (host : Host) (accepted : Accepted host),
      ExactlyPaid accepted.height (exactFees accepted.txs) accepted.checked.draft.cbOuts := by
  have one : (connection (Host.ofTables [] []) sampleMoment false (Node.empty fun _ => none)
        mintingBlock.json).length = 1 ∧
      (connection (Host.ofTables [] []) sampleMoment false (Node.empty fun _ => none)
        mintingBlock.json).all (fun accepted =>
          accepted.height == 1 && accepted.checked.draft.cbOuts == mintingOuts) = true := by
    decide +kernel
  obtain ⟨accepted, only⟩ := List.length_eq_one_iff.mp one.1
  have shown := one.2
  rw [only, List.all_cons, List.all_nil, Bool.and_true, Bool.and_eq_true, beq_iff_eq, beq_iff_eq]
    at shown
  intro exactly
  have validator := (exactly _ accepted).validator
  rw [shown.1, shown.2] at validator
  revert validator
  decide +kernel

end Minting

end PiSecure
