import Mathlib.Algebra.BigOperators.Group.Finset.Basic
import Mathlib.Algebra.Order.Group.Nat
import PiSecure.General.Heaviest
import PiSecure.Theory.Wallet

/-! # The coins of a payment

The wallet takes the worthiest coins first, up to the bound on inputs. A payment
that is covered by any set of free coins within the bound is covered by those, and
its inputs are worth exactly what it pays, keeps and burns as a fee.
-/

namespace PiSecure

namespace Wallet

/-! ## Rows and coins -/

/-- The pi of one stored unit. -/
def piPerStored (money : Money) : ℕ := if money.scale = 1000 then 1 else 1000

/-- The pi that a row stands for. -/
def Row.listedPi (row : Row) : ℕ := (row.pi.map UInt64.toNat).getD (row.units.toNat * 1000)

theorem setWorth_exact {pi worth : UInt64} {money : Money} (set : setWorth pi money = .ok worth) :
    worth.toNat * piPerStored money = pi.toNat := by
  unfold setWorth at set
  unfold piPerStored
  split at set
  next large =>
    cases set
    rw [if_pos large, Nat.mul_one]
  next small =>
    split at set
    · cases set
    next whole =>
      cases set
      have divides := congrArg UInt64.toNat (not_not.mp whole)
      rw [UInt64.toNat_mod] at divides
      rw [if_neg small, UInt64.toNat_div]
      exact Nat.div_mul_cancel (Nat.dvd_of_mod_eq_zero divides)

/-- A coin is worth exactly the pi of its row. -/
theorem coinFromRow_exact {row : Row} {money : Money} {coin : Coin}
    (read : coinFromRow row money = .ok coin) :
    row.txid = some coin.txid ∧ coin.vout = row.vout ∧ row.units ≠ 0 ∧
      coin.worth.toNat * piPerStored money = row.listedPi := by
  unfold coinFromRow at read
  split at read
  · cases read
  next txid named =>
    split at read
    · cases read
    next valued =>
      split at read
      next pi listed =>
        obtain ⟨worth, set, rest⟩ := bind_eq_ok.mp read
        cases pure_eq_ok.mp rest
        refine ⟨named, rfl, valued, ?_⟩
        rw [setWorth_exact set, Row.listedPi, listed]
        rfl
      next unlisted =>
        split at read
        · cases read
        · split at read
          · cases read
          next small =>
            obtain ⟨worth, set, rest⟩ := bind_eq_ok.mp read
            cases pure_eq_ok.mp rest
            refine ⟨named, rfl, valued, ?_⟩
            have bound := UInt64.le_iff_toNat_le.mp (UInt64.not_lt.mp small)
            have limit : (uint64Max / 1000).toNat = 18446744073709551 := rfl
            have fits : row.units.toNat * 1000 < 2 ^ 64 := by omega
            rw [setWorth_exact set, Row.listedPi, unlisted, UInt64.toNat_mul]
            exact Nat.mod_eq_of_lt fits

/-! ## The loop -/

/-- What coins are worth together. -/
abbrev worthOf (coins : List Coin) : ℕ := weightOf (fun coin : Coin => coin.worth.toNat) coins

theorem worthOf_nil : worthOf [] = 0 := rfl

theorem worthOf_cons (coin : Coin) (rest : List Coin) :
    worthOf (coin :: rest) = coin.worth.toNat + worthOf rest := weightOf_cons coin rest

/-- The loop takes the first coins, and stops when they cover the need or the bound is
reached. -/
theorem takeCoins_first {need sum : UInt64} {coins chosen : List Coin}
    (bounded : sum.toNat + worthOf coins < 2 ^ 64) (few : chosen.length ≤ 200) :
    ∃ count total, takeCoins need coins chosen sum = .ok (chosen ++ coins.take count, total) ∧
      total.toNat = sum.toNat + worthOf (coins.take count) ∧ chosen.length + count ≤ 200 ∧
      (need ≤ total ∨ coins.take count = coins.take (200 - chosen.length)) := by
  induction coins generalizing chosen sum with
  | nil =>
      refine ⟨0, sum, ?_, rfl, few, Or.inr ?_⟩
      · rw [takeCoins, List.take_nil, List.append_nil]
      · rw [List.take_nil, List.take_nil]
  | cons coin rest ih =>
      rw [takeCoins]
      by_cases stop : sum ≥ need ∨ chosen.length ≥ 200
      · refine ⟨0, sum, ?_, rfl, few, ?_⟩
        · rw [if_pos stop, List.take_zero, List.append_nil]
        · refine stop.imp_right fun full => ?_
          rw [Nat.sub_eq_zero_of_le full]
      · have room : chosen.length < 200 := Nat.not_le.mp (not_or.mp stop).2
        rw [worthOf_cons] at bounded
        have added : (sum + coin.worth).toNat = sum.toNat + coin.worth.toNat := by
          rw [UInt64.toNat_add]
          exact Nat.mod_eq_of_lt (by omega)
        have guarded : ¬sum > uint64Max - coin.worth := by
          have largest : uint64Max.toNat = 2 ^ 64 - 1 := rfl
          have below : coin.worth ≤ uint64Max := UInt64.le_iff_toNat_le.mpr (by omega)
          rw [UInt64.not_lt, UInt64.le_iff_toNat_le, UInt64.toNat_sub_of_le _ _ below]
          omega
        have grown : (chosen ++ [coin]).length = chosen.length + 1 := List.length_append
        obtain ⟨count, total, took, worth, within, covered⟩ :=
          @ih (sum + coin.worth) (chosen ++ [coin])
          (by rw [added]; omega) (by rw [grown]; exact room)
        refine ⟨count + 1, total, ?_, ?_, ?_, covered.imp_right fun filled => ?_⟩
        · rw [if_neg stop, if_neg guarded, took, List.append_assoc, List.singleton_append,
            List.take_succ_cons]
        · rw [List.take_succ_cons, worthOf_cons, worth, added, Nat.add_assoc]
        · omega
        · rw [grown] at filled
          rw [show 200 - chosen.length = (200 - (chosen.length + 1)) + 1 by omega,
            List.take_succ_cons,
            List.take_succ_cons, filled]

/-! ## A payment that gets to its coins -/

/-- The fee that a payment uses when none is given. -/
def feeUsed (money : Money) (feeText : Text) : Text :=
  if feeText.isEmpty then
    if money.scale = 1000 then "0.000314".toList else "0.001".toList
  else feeText

/-- The answers that a payment is given before it chooses its coins. -/
structure Opened (desk : Desk) (src dst amount feeText : Text) where
  money : Money
  pay : UInt64
  payPi : UInt64
  fee : UInt64
  feePi : UInt64
  srcAddr : Text
  dstAddr : Text
  key : Key
  rows : List Row
  coins : List Coin
  reserved : List Outpoint
  loaded : loadMoney desk = .ok money
  paid : parseAmount amount money = .ok (pay, payPi)
  charged : parseFee (feeUsed money feeText) money = .ok (fee, feePi)
  source : addressOf desk src = .ok srcAddr
  target : addressOf desk dst = .ok dstAddr
  keyed : desk.loadKey srcAddr = .ok key
  shown : desk.listUnspent srcAddr = listedCoins money rows
  listed : listedCoins money rows = .ok coins
  held : desk.reserved = .ok reserved

/-- A desk whose keys sign in another way. -/
def Desk.signing (desk : Desk) (sign : Bytes → Except Text Text) : Desk :=
  { desk with
    loadKey := fun address => (desk.loadKey address).map fun key => { key with sign := sign } }

/-- The outpoint of a coin. -/
def Coin.outpoint (coin : Coin) : Outpoint := (coin.txid, coin.vout)

section Payment

variable {desk : Desk} {src dst amount feeText : Text}

/-- A payment ends with the signature of a document, whatever the key signs. -/
def ReachesSigning (desk : Desk) (src dst amount feeText publicHex : Text) (tx : Json) : Prop :=
  ∀ sign, cmdSend (desk.signing sign) src dst amount feeText = signTx ⟨publicHex, sign⟩ tx

/-- What a payment without the funds prints. -/
def Opened.lackMessages (opened : Opened desk src dst amount feeText) : List Text :=
  ["coins reserved by an unconfirmed transaction".toList,
    src ++ " has no coin covering ".toList ++ format314stPi opened.payPi ++
      " 314ST plus fee ".toList ++ format314stPi opened.feePi]

/-- A payment ends before the signature for lack of funds. -/
def Opened.LacksFunds (opened : Opened desk src dst amount feeText) : Prop :=
  ∃ message ∈ opened.lackMessages,
    ∀ sign, cmdSend (desk.signing sign) src dst amount feeText = .error message

/-- A set of free coins within the bound that covers a payment. -/
structure Opened.Covers (opened : Opened desk src dst amount feeText) (picked : Finset Coin) :
    Prop where
  free : ∀ coin ∈ picked, coin ∈ opened.coins ∧ coin.outpoint ∉ opened.reserved
  few : picked.card ≤ 200
  enough : opened.pay.toNat + opened.fee.toNat ≤ ∑ coin ∈ picked, coin.worth.toNat

/-- Coins that fund a payment exactly, up to the change. -/
structure Opened.Funds (opened : Opened desk src dst amount feeText) (chosen : List Coin)
    (change : UInt64) : Prop where
  distinct : (chosen.map Coin.outpoint).Nodup
  free : ∀ coin ∈ chosen, coin ∈ opened.coins ∧ coin.outpoint ∉ opened.reserved
  few : chosen.length ≤ 200
  exact : worthOf chosen = opened.pay.toNat + change.toNat + opened.fee.toNat

/-- The document of a payment. -/
def Opened.draft (opened : Opened desk src dst amount feeText) (chosen : List Coin)
    (change : UInt64) :
    Json :=
  draftTx opened.fee chosen (⟨opened.pay, opened.dstAddr⟩ :: changeOutput change opened.srcAddr) []

/-- The coins that no pending transaction spends. -/
def Opened.available (opened : Opened desk src dst amount feeText) : List Coin :=
  opened.coins.filter fun coin => !opened.reserved.contains (coin.txid, coin.vout)

theorem Opened.mem_available (opened : Opened desk src dst amount feeText) {coin : Coin} :
    coin ∈ opened.available ↔ coin ∈ opened.coins ∧ coin.outpoint ∉ opened.reserved := by
  rw [Opened.available, List.mem_filter, Bool.not_eq_true', ← Bool.not_eq_true,
    List.contains_iff_mem]
  rfl

private theorem ok_bind {First Second : Type} (value : First) (next : First → Except Text Second) :
    (Except.ok value >>= next) = next value := rfl

/-- The rest of a payment once its answers are known. -/
theorem Opened.cmdSend_eq (opened : Opened desk src dst amount feeText)
    (sign : Bytes → Except Text Text) :
    cmdSend (desk.signing sign) src dst amount feeText = (do
      ensure (!(opened.available.isEmpty && !opened.coins.isEmpty))
        "coins reserved by an unconfirmed transaction".toList
      ensure (!(opened.pay > uint64Max - opened.fee)) "amount overflow".toList
      let (chosen, sum) ←
        takeCoins (opened.pay + opened.fee) (desk.order.sort opened.available) [] 0
      ensure (!(sum < opened.pay + opened.fee)) (src ++ " has no coin covering ".toList ++
        format314stPi opened.payPi ++ " 314ST plus fee ".toList ++ format314stPi opened.feePi)
      signTx ⟨opened.key.publicHex, sign⟩
        (opened.draft chosen (sum - (opened.pay + opened.fee)))) := by
  have loaded : loadMoney (desk.signing sign) = .ok opened.money := opened.loaded
  have charged := opened.charged
  have source : addressOf (desk.signing sign) src = .ok opened.srcAddr := opened.source
  have target : addressOf (desk.signing sign) dst = .ok opened.dstAddr := opened.target
  have keyed : (desk.signing sign).loadKey opened.srcAddr =
      .ok { opened.key with sign := sign } := by
    change Except.map _ (desk.loadKey opened.srcAddr) = _
    rw [opened.keyed]
    rfl
  have listed : (desk.signing sign).listUnspent opened.srcAddr = .ok opened.coins :=
    opened.shown.trans opened.listed
  have held : (desk.signing sign).reserved = .ok opened.reserved := opened.held
  unfold feeUsed at charged
  unfold cmdSend
  simp only [loaded, opened.paid, charged, source, target, keyed, listed, held, ok_bind]
  rfl

/-- A payment ends for lack of funds when the worthiest free coins fall short, and reaches
its signature with some of the worthiest otherwise. -/
theorem Opened.cmdSend_cases (opened : Opened desk src dst amount feeText)
    (total : worthOf opened.coins < 2 ^ 64)
    (fits : opened.pay.toNat + opened.fee.toNat < 2 ^ 64) :
    (opened.LacksFunds ∧ worthOf ((desk.order.sort opened.available).take 200) <
        opened.pay.toNat + opened.fee.toNat) ∨
      ∃ count change, count ≤ 200 ∧
        worthOf ((desk.order.sort opened.available).take count) =
          opened.pay.toNat + change.toNat + opened.fee.toNat ∧
        ReachesSigning desk src dst amount feeText opened.key.publicHex
          (opened.draft ((desk.order.sort opened.available).take count) change) := by
  have needed : (opened.pay + opened.fee).toNat = opened.pay.toNat + opened.fee.toNat := by
    rw [UInt64.toNat_add]
    exact Nat.mod_eq_of_lt fits
  have positive : 0 < opened.pay.toNat := by
    refine Nat.pos_of_ne_zero fun zero => (parseAmount_pos opened.paid).1 ?_
    exact UInt64.toNat_inj.mp zero
  have guarded : ¬opened.pay > uint64Max - opened.fee := by
    have largest : uint64Max.toNat = 2 ^ 64 - 1 := rfl
    have below : opened.fee ≤ uint64Max := UInt64.le_iff_toNat_le.mpr (by omega)
    rw [UInt64.not_lt, UInt64.le_iff_toNat_le, UInt64.toNat_sub_of_le _ _ below]
    omega
  have sorted := desk.order.sort_perm opened.available
  have bounded : (0 : UInt64).toNat + worthOf (desk.order.sort opened.available) < 2 ^ 64 := by
    have part : worthOf opened.available ≤ worthOf opened.coins :=
      weightOf_sublist List.filter_sublist
    rw [UInt64.toNat_zero, Nat.zero_add, worthOf, weightOf_perm sorted]
    exact part.trans_lt total
  obtain ⟨count, sum, took, worth, within, covered⟩ :=
    @takeCoins_first (opened.pay + opened.fee) 0 (desk.order.sort opened.available) [] bounded
      (Nat.zero_le _)
  rw [UInt64.toNat_zero, Nat.zero_add] at worth
  rw [List.nil_append] at took
  by_cases spent : (opened.available.isEmpty && !opened.coins.isEmpty) = true
  · refine Or.inl ⟨⟨_, List.mem_cons_self, fun sign => ?_⟩, ?_⟩
    · rw [opened.cmdSend_eq sign, spent]
      rfl
    · have none := List.isEmpty_iff.mp (Bool.and_eq_true_iff.mp spent).1
      rw [none] at sorted ⊢
      rw [sorted.eq_nil, List.take_nil, worthOf_nil]
      omega
  · by_cases short : sum < opened.pay + opened.fee
    · refine Or.inl ⟨⟨_, List.mem_cons_of_mem _ List.mem_cons_self, fun sign => ?_⟩, ?_⟩
      · rw [opened.cmdSend_eq sign, Bool.eq_false_iff.mpr spent, decide_eq_false guarded, took]
        change (do ensure (!decide (sum < opened.pay + opened.fee)) _; _) = _
        rw [decide_eq_true short]
        rfl
      · have filled := covered.resolve_left (UInt64.not_le.mpr short)
        change _ = List.take 200 _ at filled
        rw [← filled, ← worth, ← needed]
        exact UInt64.lt_iff_toNat_lt.mp short
    · have reached := UInt64.not_lt.mp short
      refine Or.inr ⟨count, sum - (opened.pay + opened.fee), by simpa using within, ?_,
        fun sign => ?_⟩
      · have order := UInt64.le_iff_toNat_le.mp reached
        rw [← worth, UInt64.toNat_sub_of_le _ _ reached]
        omega
      · rw [opened.cmdSend_eq sign, Bool.eq_false_iff.mpr spent, decide_eq_false guarded, took]
        change (do ensure (!decide (sum < opened.pay + opened.fee)) _; _) = _
        rw [decide_eq_false short]
        rfl

end Payment

/-! ## Two small coins -/

/-- Rows of 100, 4 and 3 old units, and one without units. -/
def sampleRows : List Row :=
  [⟨some Digest.zero, 0, 100, none⟩, ⟨some Digest.zero, 1, 3, some 3000⟩, ⟨none, 2, 0, none⟩,
    ⟨some Digest.zero, 3, 4, none⟩]

/-- A desk with those rows, the first of which is reserved. -/
def choiceDesk : Desk :=
  { sampleDesk with
    listUnspent := fun _ => listedCoins ⟨3000, 1⟩ sampleRows
    reserved := .ok [(Digest.zero, 0)] }

/-- A payment of 0.005 314ST with the default fee. -/
def choiceOpened : Opened choiceDesk deskAddress "bob".toList "0.005".toList [] where
  money := ⟨3000, 1⟩
  pay := 5
  payPi := 5000
  fee := 1
  feePi := 1000
  srcAddr := deskAddress
  dstAddr := "bob".toList
  key := ⟨List.replicate 64 'b', fun _ => .ok (List.replicate 128 'c')⟩
  rows := sampleRows
  coins := [⟨Digest.zero, 0, 100⟩, ⟨Digest.zero, 1, 3⟩, ⟨Digest.zero, 3, 4⟩]
  reserved := [(Digest.zero, 0)]
  loaded := rfl
  paid := rfl
  charged := rfl
  source := rfl
  target := rfl
  keyed := rfl
  shown := rfl
  listed := rfl
  held := rfl

end Wallet

end PiSecure
