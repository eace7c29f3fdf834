import PiSecure.Model.Amount

/-! # Flags

`flags.hpp`: the flag book with its escrow. The answer to a flag is never
stored, and escrow is bookkeeping rather than a coin.
-/

namespace PiSecure

/-- `Flag`. -/
structure Flag where
  id : Text
  commitment : Text
  awardsPubkey : Text
  maxClaims : UInt32
  expiresHeight : UInt32
  bountyUnits : UInt64
  note : Text
  escrow : UInt64
  txid : Text
  claimants : List Text
  claimTxids : List Text
deriving DecidableEq

/-- `FlagBook`: the flags in the order of their creation. -/
abbrev FlagBook := List Flag

/-- `flag_id_ok`. -/
def flagIdOk (id : Text) : Bool :=
  !id.isEmpty && id.size ≤ 32 &&
    id.all fun c => c.isAlphanum || c == '_' || c == '-'

/-- `hex64`. -/
def hex64 (text : Text) : Bool := text.size = 64 && text.all fun c => (nybble c).isSome

@[simp] theorem hex64_lowerHex (text : Text) : hex64 (lowerHex text) = hex64 text := by
  rw [hex64, hex64, size_lowerHex, lowerHex, List.all_map]
  simp only [Function.comp_def, nybble_lowerHexChar]

/-- `escrow_lock`. -/
def escrowLock (maxClaims : UInt32) (bountyUnits : UInt64) : Except String UInt64 :=
  if maxClaims = 0 then
    if bountyUnits ≠ 0 then .error "unlimited flag cannot pay" else .ok 0
  else if bountyUnits ≠ 0 ∧ bountyUnits > uint64Max / maxClaims.toUInt64 then
    .error "malformed transaction"
  else .ok (bountyUnits * maxClaims.toUInt64)

namespace FlagBook

/-- `FlagBook::find`. -/
def find (book : FlagBook) (id : Text) : Option Flag := List.find? (fun flag => flag.id == id) book

/-- The book with the first flag of an id replaced. -/
def replace (book : FlagBook) (id : Text) (flag : Flag) : FlagBook :=
  match book with
  | [] => []
  | first :: rest => if first.id = id then flag :: rest else first :: replace rest id flag

/-- `FlagBook::create`. -/
def create (book : FlagBook) (incoming : Flag) : Except String FlagBook :=
  match book.find incoming.id with
  | some existing =>
      if ¬incoming.txid.isEmpty ∧ existing.txid = incoming.txid then .ok book
      else .error "duplicate flag"
  | none =>
      match escrowLock incoming.maxClaims incoming.bountyUnits with
      | .error reason => .error reason
      | .ok lock => .ok (book ++ [{ incoming with escrow := lock }])

/-- The flag after a claim is recorded. -/
def recordClaim (flag : Flag) (recipient txid : Text) : Flag :=
  { flag with
    escrow := flag.escrow - flag.bountyUnits
    claimants := flag.claimants ++ [recipient]
    claimTxids := flag.claimTxids ++ [txid] }

/-- `FlagBook::claim`. -/
def claim (book : FlagBook) (flagId recipient awardsPubkey : Text) (height : Nat) (txid : Text) :
    Except String FlagBook :=
  match book.find flagId with
  | none => .error "unknown flag"
  | some flag =>
      match flag.claimants.findIdx? (· == recipient) with
      | some index =>
          if ¬txid.isEmpty ∧ flag.claimTxids[index]? = some txid then .ok book
          else .error "already claimed"
      | none =>
          if awardsPubkey ≠ flag.awardsPubkey then .error "awards signature required"
          else if flag.expiresHeight ≠ 0 ∧ height > flag.expiresHeight.toNat then
            .error "flag expired"
          else if flag.maxClaims ≠ 0 ∧ flag.claimants.length ≥ flag.maxClaims.toNat then
            .error "flag exhausted"
          else if flag.bountyUnits > flag.escrow then .error "flag exhausted"
          else .ok (book.replace flagId (recordClaim flag recipient txid))

theorem find_id {book : FlagBook} {id : Text} {flag : Flag} (found : book.find id = some flag) :
    flag.id = id := by
  unfold find at found
  have matched := List.find?_some found
  exact eq_of_beq matched

theorem find_mem {book : FlagBook} {id : Text} {flag : Flag} (found : book.find id = some flag) :
    flag ∈ book :=
  List.mem_of_find?_eq_some found

/-- What a successful creation does: nothing, when the same transaction made
the flag before, or a new flag with its escrow at the end of the book. -/
theorem create_ok {book next : FlagBook} {incoming : Flag}
    (created : book.create incoming = .ok next) :
    (next = book ∧ ∃ existing, book.find incoming.id = some existing ∧
      existing.txid = incoming.txid) ∨
    (book.find incoming.id = none ∧ ∃ lock,
      escrowLock incoming.maxClaims incoming.bountyUnits = .ok lock ∧
      next = book ++ [{ incoming with escrow := lock }]) := by
  unfold create at created
  split at created
  next existing found =>
    split at created
    next same => cases created; exact .inl ⟨rfl, existing, found, same.2⟩
    · cases created
  next absent =>
    split at created
    · cases created
    next lock locked => cases created; exact .inr ⟨absent, lock, locked, rfl⟩

/-- What a successful claim does: nothing, when the same transaction claimed
before, or a record of the claim on a flag whose awards key signed it. -/
theorem claim_ok {book next : FlagBook} {flagId recipient awardsPubkey txid : Text} {height : Nat}
    (claimed : book.claim flagId recipient awardsPubkey height txid = .ok next) :
    ∃ flag, book.find flagId = some flag ∧
      ((next = book ∧ ∃ index : Nat, flag.claimants[index]? = some recipient ∧
        flag.claimTxids[index]? = some txid) ∨
      (awardsPubkey = flag.awardsPubkey ∧ flag.bountyUnits ≤ flag.escrow ∧
        next = book.replace flagId (recordClaim flag recipient txid))) := by
  unfold claim at claimed
  split at claimed
  · cases claimed
  next flag found =>
    refine ⟨flag, found, ?_⟩
    split at claimed
    next index located =>
      split at claimed
      next same =>
        cases claimed
        obtain ⟨below, matched, _⟩ := List.findIdx?_eq_some_iff_getElem.mp located
        refine .inl ⟨rfl, index, ?_, same.2⟩
        rw [List.getElem?_eq_getElem below, eq_of_beq matched]
      · cases claimed
    · split at claimed
      · cases claimed
      next signed =>
        split at claimed
        · cases claimed
        · split at claimed
          · cases claimed
          · split at claimed
            · cases claimed
            next enough =>
              cases claimed
              exact .inr ⟨not_not.mp signed, UInt64.not_lt.mp enough, rfl⟩

/-- Replacing a flag by one of the same id keeps the ids of the book. -/
theorem map_id_replace (book : FlagBook) (id : Text) (flag : Flag) (same : flag.id = id) :
    (book.replace id flag).map Flag.id = book.map Flag.id := by
  induction book with
  | nil => rfl
  | cons first rest ih =>
      by_cases matched : first.id = id
      · simp only [replace, matched, ↓reduceIte, List.map_cons, same]
      · simp only [replace, matched, ↓reduceIte, List.map_cons]
        rw [ih]

theorem mem_replace {book : FlagBook} {id : Text} {flag other : Flag}
    (member : other ∈ book.replace id flag) : other = flag ∨ other ∈ book := by
  induction book with
  | nil => cases member
  | cons first rest ih =>
      by_cases matched : first.id = id
      · simp only [replace, matched, ↓reduceIte, List.mem_cons] at member
        rcases member with rfl | later
        · exact .inl rfl
        · exact .inr (List.mem_cons_of_mem _ later)
      · simp only [replace, matched, ↓reduceIte, List.mem_cons] at member
        rcases member with rfl | later
        · exact .inr List.mem_cons_self
        · rcases ih later with same | old
          · exact .inl same
          · exact .inr (List.mem_cons_of_mem _ old)

end FlagBook

end PiSecure
