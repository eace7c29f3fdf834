import PiSecure.Theory.Books
import PiSecure.Theory.Emission

/-! # Escrow and where flags come from

The flags of a book were made by transactions, and so were the claims that they
record. A flag operation of a new transaction locks or releases what the
transaction says, and never repeats an old one.
-/

namespace PiSecure

/-! ## The worth of escrow -/

/-- The worth of the escrow of a book, for the heights at which flags were born. -/
def escrowWorth (born : Text → Nat) (book : FlagBook) : Nat :=
  (book.map fun flag => piOf flag.escrow (born flag.txid)).sum

theorem escrowWorth_append (born : Text → Nat) (book more : FlagBook) :
    escrowWorth born (book ++ more) = escrowWorth born book + escrowWorth born more := by
  rw [escrowWorth, List.map_append, List.sum_append]
  rfl

/-- Replacing the flag that is found changes the sum by the two flags. -/
theorem FlagBook.sum_replace (worth : Flag → Nat) {book : FlagBook} {id : Text} {flag : Flag}
    (found : book.find id = some flag) (next : Flag) :
    ((book.replace id next).map worth).sum + worth flag = (book.map worth).sum + worth next := by
  induction book with
  | nil => cases found
  | cons first rest ih =>
      unfold FlagBook.find at found
      by_cases same : first.id = id
      · rw [List.find?_cons, beq_iff_eq.mpr same] at found
        cases found
        rw [FlagBook.replace, if_pos same, List.map_cons, List.map_cons, List.sum_cons,
          List.sum_cons]
        omega
      · rw [List.find?_cons, beq_eq_false_iff_ne.mpr same] at found
        have later := ih found
        rw [FlagBook.replace, if_neg same, List.map_cons, List.map_cons, List.sum_cons,
          List.sum_cons]
        omega

/-! ## Known transactions -/

/-- The flags of a book and their claims name known transactions. -/
def FlagsFrom (known : List Text) (book : FlagBook) : Prop :=
  ∀ flag ∈ book, flag.txid ∈ known ∧ ∀ claim ∈ flag.claimTxids, claim ∈ known

theorem FlagsFrom.mono {known more : List Text} {book : FlagBook} (source : FlagsFrom known book)
    (grown : known ⊆ more) : FlagsFrom more book := by
  intro flag member
  obtain ⟨made, claims⟩ := source flag member
  exact ⟨grown made, fun claim listed => grown (claims claim listed)⟩

/-- A flag operation adds at most its own transaction. -/
theorem FlagsFrom.apply {known : List Text} {book next : FlagBook} {tx : Tx} {height : Nat}
    (source : FlagsFrom known book) (applied : applyFlagTx book tx height = .ok next) :
    FlagsFrom (toHex tx.txid :: known) next := by
  have wider := source.mono (List.subset_cons_self (toHex tx.txid) known)
  unfold applyFlagTx at applied
  split at applied
  · rcases FlagBook.create_ok applied with ⟨rfl, _⟩ | ⟨_, lock, _, rfl⟩
    · exact wider
    · intro flag member
      rcases List.mem_append.mp member with older | isNew
      · exact wider flag older
      · rw [List.mem_singleton.mp isNew]
        exact ⟨List.mem_cons_self, fun _ impossible => (nomatch impossible)⟩
  · obtain ⟨flag, found, ⟨rfl, _⟩ | ⟨_, _, rfl⟩⟩ := FlagBook.claim_ok applied
    · exact wider
    · intro other member
      rcases FlagBook.mem_replace member with rfl | older
      · obtain ⟨made, claims⟩ := wider flag (FlagBook.find_mem found)
        refine ⟨made, fun claim listed => ?_⟩
        rcases List.mem_append.mp listed with older | isNew
        · exact claims claim older
        · rw [List.mem_singleton.mp isNew]
          exact List.mem_cons_self
      · exact wider other older
  · cases applied
    exact wider

/-- What the flag operation of a new transaction does to the escrow: it locks
what the transaction locks, and gives up at least what the claim releases. -/
theorem applyFlagTx_escrow {host : Host} {known : List Text} {book next : FlagBook} {tx : Tx}
    {height : Nat} (source : FlagsFrom known book) (fresh : toHex tx.txid ∉ known)
    (parsed : tx.Parsed host height) (applied : applyFlagTx book tx height = .ok next)
    {born : Text → Nat} (bornNow : born (toHex tx.txid) = height)
    (bornBefore : ∀ id ∈ known, born id ≤ height) (prior : List Tx) :
    escrowWorth born next + piOf (claimRelease tx book prior) height ≤
      escrowWorth born book + piOf tx.escrowLock height := by
  have shape := parsed.flag
  unfold Tx.FlagShape at shape
  unfold claimRelease
  unfold applyFlagTx at applied
  cases kind : tx.flagKind with
  | none =>
      rw [kind] at applied
      cases applied
      rw [if_pos (by decide), piOf, UInt64.toNat_zero, Nat.zero_mul, Nat.add_zero]
      exact Nat.le_add_right _ _
  | create =>
      rw [kind] at applied shape
      rw [if_pos (by decide), piOf, UInt64.toNat_zero, Nat.zero_mul, Nat.add_zero]
      rcases FlagBook.create_ok applied with ⟨_, existing, found, same⟩ | ⟨_, lock, locked, rfl⟩
      · have made := (source existing (FlagBook.find_mem found)).1
        rw [same] at made
        exact absurd made fresh
      · have lockEq : lock = tx.escrowLock :=
          Except.ok.inj (locked.symm.trans shape.2.2.2.2.2)
        rw [escrowWorth_append, lockEq]
        refine Nat.add_le_add_left ?_ _
        rw [escrowWorth, List.map_singleton, List.sum_singleton]
        change piOf tx.escrowLock (born (toHex tx.txid)) ≤ _
        rw [bornNow]
  | claim =>
      rw [kind] at applied
      rw [if_neg (by decide)]
      obtain ⟨flag, found, ⟨_, index, _, named⟩ | ⟨_, enough, rfl⟩⟩ := FlagBook.claim_ok applied
      · have claimed := (source flag (FlagBook.find_mem found)).2 _ (List.mem_of_getElem? named)
        exact absurd claimed fresh
      · rw [found]
        dsimp only
        have replaced := FlagBook.sum_replace (fun flag => piOf flag.escrow (born flag.txid)) found
          (FlagBook.recordClaim flag tx.recipient (toHex tx.txid))
        have early := bornBefore flag.txid (source flag (FlagBook.find_mem found)).1
        have released := Nat.mul_le_mul_left flag.bountyUnits.toNat (piPerUnit_anti early)
        have left : (flag.escrow - flag.bountyUnits).toNat =
            flag.escrow.toNat - flag.bountyUnits.toNat := UInt64.toNat_sub_of_le _ _ enough
        have bounded := UInt64.le_iff_toNat_le.mp enough
        have split : flag.escrow.toNat * piPerUnit (born flag.txid) =
            (flag.escrow.toNat - flag.bountyUnits.toNat) * piPerUnit (born flag.txid) +
              flag.bountyUnits.toNat * piPerUnit (born flag.txid) := by
          rw [← Nat.add_mul, Nat.sub_add_cancel bounded]
        unfold escrowWorth piOf at *
        simp only [FlagBook.recordClaim] at replaced ⊢
        rw [left] at replaced
        omega

end PiSecure
