import PiSecure.Theory.Submission

/-! # What a coinbase can pay

The worth of amounts in pi, and the most that the outputs of an accepted
coinbase add up to: the subsidy of the height and the shared part of the fees.
-/

namespace PiSecure

/-! ## Worth in pi -/

/-- The pi in one stored unit of a height. -/
def piPerUnit (height : Nat) : Nat := if height < piActivationHeight then 1000 else 1

/-- A stored amount of a height in pi. -/
def piOf (stored : UInt64) (height : Nat) : Nat := stored.toNat * piPerUnit height

/-- `stored_to_pi` is the worth in pi, as far as that fits into 64 bits. -/
theorem storedToPi_eq {stored : UInt64} {height : Nat} (fits : piOf stored height < 2 ^ 64) :
    (storedToPi stored height).map UInt64.toNat = some (piOf stored height) := by
  unfold piOf piPerUnit at fits ⊢
  unfold storedToPi
  by_cases late : height ≥ piActivationHeight
  · rw [if_pos late, if_neg (Nat.not_lt.mpr late), Nat.mul_one]
    rfl
  · rw [if_neg late]
    rw [if_pos (Nat.lt_of_not_le late)] at fits ⊢
    have limit : (uint64Max / piPerOldUnit).toNat = 18446744073709551 := rfl
    have small : ¬stored > uint64Max / piPerOldUnit := by
      rw [gt_iff_lt, UInt64.lt_iff_toNat_lt, limit]
      omega
    have product : (stored * piPerOldUnit).toNat = stored.toNat * 1000 := by
      rw [UInt64.toNat_mul]
      exact Nat.mod_eq_of_lt fits
    rw [if_neg small, Option.map_some, product]

/-- Amounts keep their pi or lose some when they move to a later height. -/
theorem piPerUnit_anti {earlier later : Nat} (ordered : earlier ≤ later) :
    piPerUnit later ≤ piPerUnit earlier := by
  unfold piPerUnit
  split <;> split <;> omega

/-! ## Fee shares -/

private theorem share_le (fee percent : UInt64) :
    (fee * percent / 100).toNat ≤ fee.toNat * percent.toNat / 100 := by
  rw [UInt64.toNat_div, UInt64.toNat_mul]
  exact Nat.div_le_div_right (Nat.mod_le _ _)

/-- The shares that are paid out stay within the fee. -/
theorem feeShares_le (fee : UInt64) :
    (feeShares fee).miner.toNat + (feeShares fee).stakers.toNat + (feeShares fee).loans.toNat +
      (feeShares fee).foundation.toNat ≤ fee.toNat := by
  have miner : (feeShares fee).miner.toNat ≤ fee.toNat * 60 / 100 := share_le fee 60
  have stakers : (feeShares fee).stakers.toNat ≤ fee.toNat * 20 / 100 := share_le fee 20
  have loans : (feeShares fee).loans.toNat ≤ fee.toNat * 8 / 100 := share_le fee 8
  have foundation : (feeShares fee).foundation.toNat ≤ fee.toNat * 7 / 100 := share_le fee 7
  omega

/-- A share of a fee whose product fits is exact. -/
private theorem share_eq {fee percent : UInt64} (fits : fee.toNat * percent.toNat < 2 ^ 64) :
    (fee * percent / 100).toNat = fee.toNat * percent.toNat / 100 := by
  rw [UInt64.toNat_div, UInt64.toNat_mul, Nat.mod_eq_of_lt fits]
  rfl

/-- The shares of a fee are parts of it, and the burn is all the rest. -/
structure FeeShares.Conserve (shares : FeeShares) (fee : UInt64) : Prop where
  unwrapped : (shares.miner + shares.stakers + shares.loans + shares.foundation).toNat =
    shares.miner.toNat + shares.stakers.toNat + shares.loans.toNat + shares.foundation.toNat
  paid : shares.miner.toNat + shares.stakers.toNat + shares.loans.toNat + shares.foundation.toNat ≤
    fee.toNat
  whole : shares.miner.toNat + shares.stakers.toNat + shares.loans.toNat + shares.foundation.toNat +
    shares.burn.toNat = fee.toNat
  miner : 100 * shares.miner.toNat ≤ 60 * fee.toNat
  stakers : 100 * shares.stakers.toNat ≤ 20 * fee.toNat
  loans : 100 * shares.loans.toNat ≤ 8 * fee.toNat
  foundation : 100 * shares.foundation.toNat ≤ 7 * fee.toNat
  burn : 5 * fee.toNat ≤ 100 * shares.burn.toNat

/-- Every share that is paid is its percentage, rounded down. -/
structure FeeShares.Exact (shares : FeeShares) (fee : UInt64) : Prop where
  miner : shares.miner.toNat = fee.toNat * 60 / 100
  stakers : shares.stakers.toNat = fee.toNat * 20 / 100
  loans : shares.loans.toNat = fee.toNat * 8 / 100
  foundation : shares.foundation.toNat = fee.toNat * 7 / 100

theorem conserve_feeShares (fee : UInt64) : (feeShares fee).Conserve fee := by
  have miner : (feeShares fee).miner.toNat ≤ fee.toNat * 60 / 100 := share_le fee 60
  have stakers : (feeShares fee).stakers.toNat ≤ fee.toNat * 20 / 100 := share_le fee 20
  have loans : (feeShares fee).loans.toNat ≤ fee.toNat * 8 / 100 := share_le fee 8
  have foundation : (feeShares fee).foundation.toNat ≤ fee.toNat * 7 / 100 := share_le fee 7
  have bound := fee.toNat_lt
  have unwrapped : ((feeShares fee).miner + (feeShares fee).stakers + (feeShares fee).loans +
      (feeShares fee).foundation).toNat = (feeShares fee).miner.toNat +
      (feeShares fee).stakers.toNat +
        (feeShares fee).loans.toNat + (feeShares fee).foundation.toNat := by
    rw [UInt64.toNat_add, UInt64.toNat_add, UInt64.toNat_add]
    omega
  have rest : (feeShares fee).burn.toNat = fee.toNat - ((feeShares fee).miner.toNat +
      (feeShares fee).stakers.toNat + (feeShares fee).loans.toNat +
        (feeShares fee).foundation.toNat) := by
    change (fee - ((feeShares fee).miner + (feeShares fee).stakers + (feeShares fee).loans +
      (feeShares fee).foundation)).toNat = _
    rw [UInt64.toNat_sub_of_le _ _ (UInt64.le_iff_toNat_le.mpr (by omega)), unwrapped]
  exact ⟨unwrapped, by omega, by omega, by omega, by omega, by omega, by omega, by omega⟩

theorem exact_feeShares {fee : UInt64} (small : fee.toNat ≤ (2 ^ 64 - 1) / 60) :
    (feeShares fee).Exact fee := by
  have fits : ∀ percent : UInt64, percent.toNat ≤ 60 → fee.toNat * percent.toNat < 2 ^ 64 := by
    intro percent few
    have product := Nat.mul_le_mul small few
    omega
  exact ⟨share_eq (fits 60 (by decide)), share_eq (fits 20 (by decide)),
    share_eq (fits 8 (by decide)),
    share_eq (fits 7 (by decide))⟩

/-- **Fee shares.** The shares of every fee add up to it without wrapping, each within its
percentage, and those of a fee whose products fit are the percentages rounded down. -/
theorem fee_conserved (fee : UInt64) : (feeShares fee).Conserve fee ∧
    (fee.toNat ≤ (2 ^ 64 - 1) / 60 → (feeShares fee).Exact fee) :=
  ⟨conserve_feeShares fee, exact_feeShares⟩

/-- The subsidies that a miner can take at a height. -/
def minerSubsidies (height : Nat) : List Nat :=
  if height < 32 then [198, 216] else if height < 3000 then [216] else [216000]

/-- The subsidy of the validator at a height. -/
def validatorSubsidy (height : Nat) : Nat := if height < 3000 then 2 else 2000

/-- The validator gets its subsidy, and the miner one of its subsidies and its
share of the fees. -/
theorem coinbaseSubsidyOk_ok {height : Nat} {fee paidMiner paidValidator : UInt64}
    (passed : coinbaseSubsidyOk height fee paidMiner paidValidator = .ok ()) :
    (∃ subsidy ∈ minerSubsidies height,
        paidMiner.toNat = subsidy + (feeShares fee).miner.toNat) ∧
      paidValidator.toNat = validatorSubsidy height := by
  have share : (feeShares fee).miner.toNat ≤ 184467440737095516 := by
    change (fee * 60 / 100).toNat ≤ _
    rw [UInt64.toNat_div]
    have product := (fee * 60).toNat_lt
    exact Nat.div_le_div_right (Nat.le_of_lt_succ product)
  have added : ∀ subsidy : UInt64, subsidy.toNat ≤ 216000 →
      (subsidy + (feeShares fee).miner).toNat = subsidy.toNat + (feeShares fee).miner.toNat := by
    intro subsidy small
    rw [UInt64.toNat_add]
    exact Nat.mod_eq_of_lt (by omega)
  unfold coinbaseSubsidyOk at passed
  split at passed
  · cases passed
  split at passed
  · cases passed
  next validator =>
    rw [not_not] at validator
    refine ⟨?_, ?_⟩
    · dsimp only at passed
      unfold minerSubsidies
      split at passed
      next late =>
        have notEarly : ¬height < 32 := Nat.not_lt.mpr late
        split at passed
        · cases passed
        next miner =>
          rw [not_not] at miner
          rw [if_neg notEarly, miner]
          unfold minerSubsidyForHeight subsidyForHeight validatorForHeight
          by_cases pi : height ≥ piActivationHeight
          · have notOld : ¬height < 3000 := Nat.not_lt.mpr pi
            simp only [if_pos pi, if_neg notOld, List.mem_singleton, exists_eq_left]
            exact added 216000 (by decide)
          · have old : height < 3000 := Nat.lt_of_not_le pi
            simp only [if_neg pi, if_pos late, if_pos old, List.mem_singleton, exists_eq_left]
            exact added 216 (by decide)
      next early =>
        have before : height < 32 := Nat.lt_of_not_le early
        split at passed
        · cases passed
        next miner =>
          rw [not_and_or, not_not, not_not] at miner
          rw [if_pos before]
          rcases miner with rfl | rfl
          · exact ⟨198, by simp, added 198 (by decide)⟩
          · exact ⟨216, by simp, added 216 (by decide)⟩
    · rw [validator, validatorForHeight, validatorSubsidy]
      by_cases pi : height ≥ piActivationHeight
      · have notOld : ¬height < 3000 := Nat.not_lt.mpr pi
        rw [if_pos pi, if_neg notOld]
        rfl
      · have old : height < 3000 := Nat.lt_of_not_le pi
        rw [if_neg pi, if_pos old]
        rfl

/-- What the miner and the validator get is at most the subsidy of the height
and the share of the miner. -/
theorem coinbaseSubsidyOk_le {height : Nat} {fee paidMiner paidValidator : UInt64}
    (passed : coinbaseSubsidyOk height fee paidMiner paidValidator = .ok ()) :
    (paidMiner.toNat + paidValidator.toNat) * piPerUnit height ≤
      218000 + (feeShares fee).miner.toNat * piPerUnit height := by
  obtain ⟨⟨subsidy, admitted, miner⟩, validator⟩ := coinbaseSubsidyOk_ok passed
  have old : piActivationHeight = 3000 := rfl
  rw [miner, validator, validatorSubsidy, piPerUnit, old]
  unfold minerSubsidies at admitted
  by_cases pi : height < 3000
  · have bound : subsidy ≤ 216 := by
      rw [if_pos pi] at admitted
      split at admitted <;> simp only [List.mem_cons, List.not_mem_nil, or_false] at admitted <;>
        omega
    rw [if_pos pi, if_pos pi]
    omega
  · rw [if_neg (by omega), if_neg pi, List.mem_singleton] at admitted
    rw [if_neg pi, if_neg pi]
    omega

/-! ## Coinbase outputs -/

/-- The amounts in a list of outputs. -/
def cbTotal (outs : List CbOut) : Nat := (outs.map fun out => out.units.toNat).sum

/-- The amounts paid to a role. -/
def roleTotal (role : Text) (outs : List CbOut) : Nat := cbTotal (outs.filter (·.role = role))

namespace Paid

/-- The roles that a coinbase can pay. -/
def roles : List Text :=
  ["miner".toList, "validator".toList, "stakers".toList, "loans".toList, "foundation".toList]

/-- The amount of a role. -/
def of (paid : Paid) (role : Text) : UInt64 :=
  if role = "miner".toList then paid.miner
  else if role = "validator".toList then paid.validator
  else if role = "stakers".toList then paid.stakers
  else if role = "loans".toList then paid.loans
  else if role = "foundation".toList then paid.foundation
  else 0

theorem roles_nodup : roles.Nodup := by decide

end Paid

/-- One more output adds its amount to the one role it names. -/
theorem addPaid_ok {paid next : Paid} {out : CbOut} (added : addPaid paid out = .ok next) :
    out.role ∈ Paid.roles ∧
      ∀ role, next.of role = paid.of role + if role = out.role then out.units else 0 := by
  have distinct := Paid.roles_nodup
  unfold addPaid at added
  unfold Paid.roles at distinct ⊢
  unfold Paid.of
  -- Only that the five texts differ matters from here on.
  generalize "miner".toList = miner at added distinct ⊢
  generalize "validator".toList = validator at added distinct ⊢
  generalize "stakers".toList = stakers at added distinct ⊢
  generalize "loans".toList = loans at added distinct ⊢
  generalize "foundation".toList = foundation at added distinct ⊢
  simp only [List.nodup_cons, List.mem_cons, List.not_mem_nil, or_false, not_or] at distinct
  split at added
  · cases added
    exact ⟨by grind, fun role => by grind⟩
  · split at added
    · cases added
      exact ⟨by grind, fun role => by grind⟩
    · split at added
      · cases added
        exact ⟨by grind, fun role => by grind⟩
      · split at added
        · cases added
          exact ⟨by grind, fun role => by grind⟩
        · split at added
          · split at added
            · cases added
            · cases added
              exact ⟨by grind, fun role => by grind⟩
          · cases added

theorem roleTotal_cons (role : Text) (out : CbOut) (rest : List CbOut) :
    roleTotal role (out :: rest) =
      (if out.role = role then out.units.toNat else 0) + roleTotal role rest := by
  unfold roleTotal
  rw [List.filter_cons]
  by_cases same : out.role = role
  · rw [if_pos (decide_eq_true same), if_pos same, cbTotal, List.map_cons, List.sum_cons]
    rfl
  · rw [if_neg (by simpa using same), if_neg same, Nat.zero_add]

/-- The amount of a role is its sum modulo the size of a word. -/
theorem foldlM_addPaid_ok {paid final : Paid} {outs : List CbOut}
    (added : outs.foldlM addPaid paid = .ok final) :
    (∀ out ∈ outs, out.role ∈ Paid.roles) ∧
      ∀ role, (final.of role).toNat = ((paid.of role).toNat + roleTotal role outs) % 2 ^ 64 := by
  induction outs generalizing paid with
  | nil =>
      cases added
      exact ⟨fun _ impossible => (nomatch impossible),
        fun role => (Nat.mod_eq_of_lt (final.of role).toNat_lt).symm⟩
  | cons out rest ih =>
      rw [List.foldlM_cons] at added
      obtain ⟨next, first, later⟩ := bind_eq_ok.mp added
      obtain ⟨known, amounts⟩ := addPaid_ok first
      obtain ⟨restKnown, restAmounts⟩ := ih later
      refine ⟨List.forall_mem_cons.mpr ⟨known, restKnown⟩, fun role => ?_⟩
      rw [restAmounts role, amounts role, roleTotal_cons]
      by_cases same : out.role = role
      · rw [if_pos same.symm, if_pos same, UInt64.toNat_add, Nat.mod_add_mod, Nat.add_assoc]
      · rw [if_neg (Ne.symm same), if_neg same, UInt64.add_zero, Nat.zero_add]

/-- The amounts that the rules of a coinbase are about. -/
theorem sum_addPaid {outs : List CbOut} {amounts : Paid}
    (summed : outs.foldlM addPaid {} = .ok amounts) (role : Text) :
    (amounts.of role).toNat = roleTotal role outs % 2 ^ 64 := by
  have zero : (({} : Paid).of role).toNat = 0 := by
    simp only [Paid.of, ite_self, UInt64.toNat_zero]
  rw [(foldlM_addPaid_ok summed).2 role, zero, Nat.zero_add]

private theorem sum_named {names : List Text} {name : Text} (units : Nat) (distinct : names.Nodup)
    (known : name ∈ names) :
    (names.map fun role => if role = name then units else 0).sum = units := by
  induction names with
  | nil => cases known
  | cons first rest ih =>
      rw [List.nodup_cons] at distinct
      rw [List.map_cons, List.sum_cons]
      rcases List.mem_cons.mp known with rfl | later
      · have others : rest.map (fun role => if role = name then units else 0) =
            rest.map fun _ => 0 :=
          List.map_congr_left fun role member =>
            if_neg fun same : role = name => distinct.1 (same ▸ member)
        rw [if_pos rfl, others, List.map_const', List.sum_replicate, Nat.nsmul_eq_mul, Nat.mul_zero,
          Nat.add_zero]
      · rw [if_neg fun same : first = name => distinct.1 (same ▸ later), ih distinct.2 later,
          Nat.zero_add]

/-- The amounts of a coinbase are those of its roles. -/
theorem cbTotal_roles {outs : List CbOut} (known : ∀ out ∈ outs, out.role ∈ Paid.roles) :
    cbTotal outs = (Paid.roles.map fun role => roleTotal role outs).sum := by
  induction outs with
  | nil => rfl
  | cons out rest ih =>
      rw [List.forall_mem_cons] at known
      have named := sum_named out.units.toNat Paid.roles_nodup known.1
      have split : (Paid.roles.map fun role => roleTotal role (out :: rest)) =
          Paid.roles.map fun role => (if role = out.role then out.units.toNat else 0) +
            roleTotal role rest :=
        List.map_congr_left fun role _ => by
          rw [roleTotal_cons]
          simp only [eq_comm]
      rw [split, List.sum_map_add, named, ← ih known.2]
      rfl

/-- A coinbase that follows the emission rules pays at most the subsidy of the
height and the fees. -/
theorem checkPaid_le {height : Nat} {fee : UInt64} {outs : List CbOut}
    (paid : checkPaid height (emissionFor height fee) fee outs = .ok ())
    (fits : ∀ role, roleTotal role outs < 2 ^ 64) :
    cbTotal outs * piPerUnit height ≤ 218000 + fee.toNat * piPerUnit height := by
  simp only [checkPaid, bind_eq_ok, require_ok, refuse_ok] at paid
  obtain ⟨amounts, summed, _, capped, _, subsidy, _⟩ := paid
  have known := (foldlM_addPaid_ok summed).1
  have role : ∀ role, (amounts.of role).toNat = roleTotal role outs := by
    intro role
    rw [sum_addPaid summed, Nat.mod_eq_of_lt (fits role)]
  have miner : amounts.miner.toNat = roleTotal "miner".toList outs := role "miner".toList
  have validator : amounts.validator.toNat = roleTotal "validator".toList outs :=
    role "validator".toList
  have stakers : amounts.stakers.toNat = roleTotal "stakers".toList outs := role "stakers".toList
  have loans : amounts.loans.toNat = roleTotal "loans".toList outs := role "loans".toList
  have foundation : amounts.foundation.toNat = roleTotal "foundation".toList outs :=
    role "foundation".toList
  have sum : cbTotal outs = amounts.miner.toNat + amounts.validator.toNat +
      amounts.stakers.toNat + amounts.loans.toNat + amounts.foundation.toNat := by
    rw [cbTotal_roles known, miner, validator, stakers, loans, foundation]
    simp only [Paid.roles, List.map_cons, List.map_nil, List.sum_cons, List.sum_nil]
    omega
  have caps : amounts.stakers ≤ (feeShares fee).stakers ∧ amounts.loans ≤ (feeShares fee).loans ∧
      amounts.foundation = (feeShares fee).foundation := by
    simp only [Bool.not_eq_true', Bool.or_eq_false_iff, decide_eq_false_iff_not,
      bne_eq_false_iff_eq,
      gt_iff_lt, UInt64.not_lt] at capped
    exact ⟨capped.1.1, capped.1.2, capped.2⟩
  have stakersCap := UInt64.le_iff_toNat_le.mp caps.1
  have loansCap := UInt64.le_iff_toNat_le.mp caps.2.1
  have foundationCap := congrArg UInt64.toNat caps.2.2
  have main := coinbaseSubsidyOk_le subsidy
  have shares := feeShares_le fee
  have scaled := Nat.mul_le_mul_right (piPerUnit height) shares
  have rest := Nat.mul_le_mul_right (piPerUnit height)
    (Nat.add_le_add (Nat.add_le_add stakersCap loansCap) (Nat.le_of_eq foundationCap))
  rw [sum]
  simp only [Nat.add_mul] at main scaled rest ⊢
  omega

end PiSecure
