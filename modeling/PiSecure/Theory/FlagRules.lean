import Mathlib.Data.List.Nodup
import PiSecure.General.Run
import PiSecure.Model.Flags

/-! # The rules of the flag book

What holds of a flag book after any calls: the ids are unique, every claim is
recorded once, and the escrow of a limited flag is the bounty of the claims that
are left. A call that succeeded is recognised by its transaction id ever after.
-/

namespace PiSecure

/-! ## Calls -/

/-- A call that writes to a flag book. -/
inductive FlagCall where
  | create (incoming : Flag)
  | claim (flagId recipient awardsPubkey : Text) (height : Nat) (txid : Text)

namespace FlagCall

/-- The book after a call, or why the call fails. -/
def apply (book : FlagBook) : FlagCall → Except String FlagBook
  | .create incoming => book.create incoming
  | .claim flagId recipient awardsPubkey height txid =>
      book.claim flagId recipient awardsPubkey height txid

/-- The book after a call, and what the call returns. -/
def perform (book : FlagBook) (call : FlagCall) : FlagBook × Bool :=
  match call.apply book with
  | .ok next => (next, true)
  | .error _ => (book, false)

/-- The transaction that makes a call. -/
def txid : FlagCall → Text
  | .create incoming => incoming.txid
  | .claim _ _ _ _ txid => txid

/-- A call that brings no claims with it. -/
def Plain : FlagCall → Prop
  | .create incoming => incoming.claimants = [] ∧ incoming.claimTxids = []
  | .claim _ _ _ _ _ => True

end FlagCall

/-- The flag book as a machine; its events are the calls that succeed. -/
def flagMachine : Machine FlagBook FlagCall FlagCall where
  step book call := some (call.perform book).1
  events book call := if (call.perform book).2 then [call] else []

/-! ## Finding flags -/

namespace FlagBook

/-- A recorded claim leaves the id of the flag alone. -/
theorem recordClaim_id {book : FlagBook} {id : Text} {flag : Flag}
    (found : book.find id = some flag)
    (recipient txid : Text) : (recordClaim flag recipient txid).id = id := by
  change flag.id = id
  exact find_id found

theorem find_append_of_some {book : FlagBook} {id : Text} {flag : Flag} (more : FlagBook)
    (found : book.find id = some flag) : FlagBook.find (book ++ more) id = some flag := by
  unfold find at found ⊢
  rw [List.find?_append, found]
  rfl

theorem find_append_of_none {book : FlagBook} {id : Text} {flag : Flag}
    (absent : book.find id = none) (named : flag.id = id) :
    FlagBook.find (book ++ [flag]) id = some flag := by
  unfold find at absent ⊢
  rw [List.find?_append, absent, List.find?_cons, beq_iff_eq.mpr named]
  rfl

/-- The replaced flag is found under its id. -/
theorem find_replace_self {book : FlagBook} {id : Text} {flag next : Flag}
    (found : book.find id = some flag) (named : next.id = id) :
    (book.replace id next).find id = some next := by
  induction book with
  | nil => cases found
  | cons first rest ih =>
      unfold find at found ih ⊢
      by_cases same : first.id = id
      · rw [replace, if_pos same, List.find?_cons, beq_iff_eq.mpr named]
      · rw [List.find?_cons, beq_eq_false_iff_ne.mpr same] at found
        rw [replace, if_neg same, List.find?_cons, beq_eq_false_iff_ne.mpr same]
        exact ih found

/-- Replacing a flag leaves the other ids alone. -/
theorem find_replace_of_ne (book : FlagBook) {id other : Text} {next : Flag} (named : next.id = id)
    (differs : other ≠ id) : (book.replace id next).find other = book.find other := by
  induction book with
  | nil => rfl
  | cons first rest ih =>
      unfold find at ih ⊢
      by_cases same : first.id = id
      · have firstDiffers : first.id ≠ other := fun equal => differs (equal.symm.trans same)
        have nextDiffers : next.id ≠ other := fun equal => differs (equal.symm.trans named)
        rw [replace, if_pos same, List.find?_cons, List.find?_cons,
          beq_eq_false_iff_ne.mpr nextDiffers, beq_eq_false_iff_ne.mpr firstDiffers]
      · rw [replace, if_neg same, List.find?_cons, List.find?_cons, ih]

end FlagBook

/-! ## The invariant -/

/-- A flag whose claims are recorded once each, and whose escrow is the bounty of
the claims that are left. -/
structure Flag.Kept (flag : Flag) : Prop where
  distinct : flag.claimants.Nodup
  recorded : flag.claimTxids.length = flag.claimants.length
  limited : 0 < flag.maxClaims → flag.claimants.length ≤ flag.maxClaims.toNat ∧
    flag.escrow.toNat = flag.bountyUnits.toNat * (flag.maxClaims.toNat - flag.claimants.length)

/-- A book of kept flags with unique ids. -/
structure FlagBook.Kept (book : FlagBook) : Prop where
  ids : (book.map Flag.id).Nodup
  flags : ∀ flag ∈ book, flag.Kept

/-- The lock of a limited flag is the bounty of all claims. -/
theorem escrowLock_toNat {maxClaims : UInt32} {bountyUnits lock : UInt64}
    (locked : escrowLock maxClaims bountyUnits = .ok lock) (limited : 0 < maxClaims) :
    lock.toNat = bountyUnits.toNat * maxClaims.toNat := by
  have capped : maxClaims ≠ 0 := fun none => by
    rw [none] at limited
    exact absurd limited (by decide)
  have positive : 0 < maxClaims.toNat := UInt32.lt_iff_toNat_lt.mp limited
  unfold escrowLock at locked
  rw [if_neg capped] at locked
  split at locked
  · cases locked
  next fits =>
    cases locked
    rw [UInt64.toNat_mul, UInt32.toNat_toUInt64]
    refine Nat.mod_eq_of_lt ?_
    by_cases none : bountyUnits = 0
    · rw [none, UInt64.toNat_zero, Nat.zero_mul]
      decide
    · have below := UInt64.not_lt.mp fun above => fits ⟨none, above⟩
      rw [UInt64.le_iff_toNat_le, UInt64.toNat_div, UInt32.toNat_toUInt64] at below
      have product := (Nat.le_div_iff_mul_le positive).mp below
      exact Nat.lt_of_le_of_lt product (by decide)

/-- A new flag is kept. -/
theorem Flag.Kept.created {incoming : Flag} {lock : UInt64}
    (plain : incoming.claimants = [] ∧ incoming.claimTxids = [])
    (locked : escrowLock incoming.maxClaims incoming.bountyUnits = .ok lock) :
    Flag.Kept { incoming with escrow := lock } where
  distinct := plain.1 ▸ List.nodup_nil
  recorded := by rw [plain.1, plain.2]
  limited positive := by
    dsimp only at positive ⊢
    rw [plain.1, List.length_nil, Nat.sub_zero]
    exact ⟨Nat.zero_le _, escrowLock_toNat locked positive⟩

/-- A recorded claim keeps its flag. -/
theorem Flag.Kept.claimed {flag : Flag} (kept : flag.Kept) {recipient : Text} (txid : Text)
    (unclaimed : recipient ∉ flag.claimants)
    (room : flag.maxClaims = 0 ∨ flag.claimants.length < flag.maxClaims.toNat)
    (enough : flag.bountyUnits ≤ flag.escrow) :
    (FlagBook.recordClaim flag recipient txid).Kept where
  distinct := by
    refine List.nodup_append.mpr ⟨kept.distinct, List.nodup_singleton _, ?_⟩
    rintro claimant listed _ isNew rfl
    rw [List.mem_singleton.mp isNew] at listed
    exact unclaimed listed
  recorded := by
    change (flag.claimTxids ++ [txid]).length = (flag.claimants ++ [recipient]).length
    rw [List.length_append, List.length_append, kept.recorded]
    rfl
  limited positive := by
    have below := room.resolve_left fun none => by
      have capped : 0 < flag.maxClaims := positive
      rw [none] at capped
      exact absurd capped (by decide)
    have escrow := (kept.limited positive).2
    change (flag.claimants ++ [recipient]).length ≤ flag.maxClaims.toNat ∧
      (flag.escrow - flag.bountyUnits).toNat =
        flag.bountyUnits.toNat * (flag.maxClaims.toNat - (flag.claimants ++ [recipient]).length)
    rw [List.length_append, List.length_singleton, UInt64.toNat_sub_of_le _ _ enough, escrow,
      ← Nat.sub_sub, Nat.mul_sub flag.bountyUnits.toNat _ 1, Nat.mul_one]
    exact ⟨below, rfl⟩

namespace FlagBook.Kept

theorem empty : FlagBook.Kept [] := ⟨List.nodup_nil, fun _ impossible => nomatch impossible⟩

theorem create {book next : FlagBook} {incoming : Flag} (kept : book.Kept)
    (plain : incoming.claimants = [] ∧ incoming.claimTxids = [])
    (created : book.create incoming = .ok next) : next.Kept := by
  rcases FlagBook.create_ok created with ⟨rfl, _⟩ | ⟨absent, lock, locked, rfl⟩
  · exact kept
  refine ⟨?_, fun flag member => ?_⟩
  · rw [List.map_append, List.nodup_append]
    refine ⟨kept.ids, List.nodup_singleton _, ?_⟩
    rintro id used _ isNew rfl
    obtain ⟨flag, listed, named⟩ := List.mem_map.mp used
    have missed := List.find?_eq_none.mp absent flag listed
    rw [List.map_singleton, List.mem_singleton] at isNew
    exact missed (beq_iff_eq.mpr (named.trans isNew))
  · rcases List.mem_append.mp member with older | isNew
    · exact kept.flags flag older
    · rw [List.mem_singleton.mp isNew]
      exact Flag.Kept.created plain locked

theorem claim {book next : FlagBook} {flagId recipient awardsPubkey txid : Text} {height : Nat}
    (kept : book.Kept) (claimed : book.claim flagId recipient awardsPubkey height txid = .ok next) :
    next.Kept := by
  unfold FlagBook.claim at claimed
  split at claimed
  · cases claimed
  next flag found =>
    split at claimed
    · split at claimed
      · cases claimed
        exact kept
      · cases claimed
    next unclaimed =>
      split at claimed
      · cases claimed
      · split at claimed
        · cases claimed
        · split at claimed
          · cases claimed
          next room =>
            split at claimed
            · cases claimed
            next enough =>
              cases claimed
              refine ⟨?_, fun other member => ?_⟩
              · rw [FlagBook.map_id_replace _ _ _ (FlagBook.recordClaim_id found recipient txid)]
                exact kept.ids
              · rcases FlagBook.mem_replace member with rfl | older
                · refine (kept.flags flag (FlagBook.find_mem found)).claimed txid ?_ ?_
                    (UInt64.not_lt.mp enough)
                  · intro listed
                    have missed := List.findIdx?_eq_none_iff.mp unclaimed recipient listed
                    rw [beq_self_eq_true] at missed
                    cases missed
                  · by_cases none : flag.maxClaims = 0
                    · exact .inl none
                    · exact .inr (Nat.lt_of_not_le fun full => room ⟨none, full⟩)
                · exact kept.flags other older

end FlagBook.Kept

/-! ## Recognised calls -/

/-- A call that the book shows to have succeeded, with the id of its transaction. -/
def FlagCall.Recorded (book : FlagBook) : FlagCall → Prop
  | .create incoming => ∃ flag, book.find incoming.id = some flag ∧ flag.txid = incoming.txid
  | .claim flagId recipient _ _ txid => ∃ flag, book.find flagId = some flag ∧
      ∃ index, flag.claimants.findIdx? (· == recipient) = some index ∧
        flag.claimTxids[index]? = some txid

namespace FlagCall

variable {book next : FlagBook} {call : FlagCall}

/-- A recorded call of a transaction with an id changes nothing. -/
theorem Recorded.again (recorded : call.Recorded book) (named : call.txid ≠ []) :
    call.apply book = .ok book := by
  cases call with
  | create incoming =>
      obtain ⟨flag, found, same⟩ := recorded
      have given : ¬incoming.txid.isEmpty := fun empty => named (List.isEmpty_iff.mp empty)
      change book.create incoming = _
      unfold FlagBook.create
      rw [found]
      exact if_pos ⟨given, same⟩
  | claim flagId recipient awardsPubkey height txid =>
      obtain ⟨flag, found, index, located, same⟩ := recorded
      have given : ¬txid.isEmpty := fun empty => named (List.isEmpty_iff.mp empty)
      change book.claim flagId recipient awardsPubkey height txid = _
      unfold FlagBook.claim
      rw [found]
      dsimp only
      rw [located]
      exact if_pos ⟨given, same⟩

/-- A call that succeeds is recorded. -/
theorem Recorded.of_apply (kept : book.Kept) (applied : call.apply book = .ok next) :
    call.Recorded next := by
  cases call with
  | create incoming =>
      rcases FlagBook.create_ok applied with ⟨rfl, recorded⟩ | ⟨absent, lock, _, rfl⟩
      · exact recorded
      · exact ⟨_, FlagBook.find_append_of_none absent rfl, rfl⟩
  | claim flagId recipient awardsPubkey height txid =>
      change book.claim flagId recipient awardsPubkey height txid = .ok next at applied
      unfold FlagBook.claim at applied
      split at applied
      · cases applied
      next flag found =>
        split at applied
        next index located =>
          split at applied
          next same =>
            cases applied
            exact ⟨flag, found, index, located, same.2⟩
          · cases applied
        next unclaimed =>
          split at applied
          · cases applied
          · split at applied
            · cases applied
            · split at applied
              · cases applied
              · split at applied
                · cases applied
                · cases applied
                  have recorded := (kept.flags flag (FlagBook.find_mem found)).recorded
                  have named := FlagBook.recordClaim_id found recipient txid
                  refine ⟨_, FlagBook.find_replace_self found named, flag.claimants.length, ?_, ?_⟩
                  · change (flag.claimants ++ [recipient]).findIdx? (· == recipient) = _
                    rw [List.findIdx?_append, unclaimed]
                    simp
                  · change (flag.claimTxids ++ [txid])[flag.claimants.length]? = some txid
                    rw [← recorded, List.getElem?_append_right (Nat.le_refl _), Nat.sub_self]
                    rfl

/-- What is recorded of one flag stays recorded when another claim is. -/
theorem Recorded.replace {flagId recipient txid : Text} {flag : Flag}
    (recorded : call.Recorded book) (found : book.find flagId = some flag) :
    call.Recorded (book.replace flagId (FlagBook.recordClaim flag recipient txid)) := by
  have named := FlagBook.recordClaim_id found recipient txid
  cases call with
  | create incoming =>
      obtain ⟨made, located, same⟩ := recorded
      by_cases own : incoming.id = flagId
      · rw [own, found] at located
        cases located
        refine ⟨FlagBook.recordClaim flag recipient txid, ?_, same⟩
        rw [own]
        exact FlagBook.find_replace_self found named
      · exact ⟨made, (FlagBook.find_replace_of_ne book named own).trans located, same⟩
  | claim claimedId claimant awardsPubkey height claimTxid =>
      obtain ⟨made, located, index, isAt, same⟩ := recorded
      by_cases own : claimedId = flagId
      · rw [own, found] at located
        cases located
        refine ⟨FlagBook.recordClaim flag recipient txid, ?_, index, ?_, ?_⟩
        · rw [own]
          exact FlagBook.find_replace_self found named
        · change (flag.claimants ++ [recipient]).findIdx? (· == claimant) = some index
          rw [List.findIdx?_append, isAt]
          rfl
        · change (flag.claimTxids ++ [txid])[index]? = some claimTxid
          rw [List.getElem?_append_left (List.getElem?_eq_some_iff.mp same).1]
          exact same
      · exact ⟨made, (FlagBook.find_replace_of_ne book named own).trans located, index, isAt, same⟩

/-- A recorded call stays recorded. -/
theorem Recorded.apply {other : FlagCall} (recorded : call.Recorded book)
    (applied : other.apply book = .ok next) : call.Recorded next := by
  cases other with
  | create incoming =>
      rcases FlagBook.create_ok applied with ⟨rfl, _⟩ | ⟨_, lock, _, rfl⟩
      · exact recorded
      · cases call with
        | create earlier =>
            obtain ⟨flag, found, same⟩ := recorded
            exact ⟨flag, FlagBook.find_append_of_some _ found, same⟩
        | claim =>
            obtain ⟨flag, found, rest⟩ := recorded
            exact ⟨flag, FlagBook.find_append_of_some _ found, rest⟩
  | claim flagId recipient awardsPubkey height txid =>
      obtain ⟨flag, found, ⟨rfl, _⟩ | ⟨_, _, rfl⟩⟩ := FlagBook.claim_ok applied
      · exact recorded
      · exact recorded.replace found

end FlagCall

/-! ## Runs -/

/-- What the calls of a run leave: a kept book that records every call that
succeeded. -/
structure FlagRun (log : List FlagCall) (book : FlagBook) : Prop where
  kept : book.Kept
  recorded : ∀ call ∈ log, call.Recorded book

/-- One call keeps the book. -/
theorem FlagRun.step {log : List FlagCall} {book : FlagBook} (holds : FlagRun log book)
    {call : FlagCall} (plain : call.Plain) :
    FlagRun (log ++ flagMachine.events book call) (call.perform book).1 := by
  change FlagRun (log ++ if (call.perform book).2 then [call] else []) _
  unfold FlagCall.perform
  cases applied : call.apply book with
  | error reason =>
      dsimp only
      rw [if_neg Bool.false_ne_true, List.append_nil]
      exact holds
  | ok next =>
      dsimp only
      rw [if_pos rfl]
      refine ⟨?_, fun earlier member => ?_⟩
      · cases call with
        | create incoming => exact holds.kept.create plain applied
        | claim => exact holds.kept.claim applied
      · rcases List.mem_append.mp member with older | isNew
        · exact (holds.recorded earlier older).apply applied
        · rw [List.mem_singleton.mp isNew]
          exact .of_apply holds.kept applied

theorem FlagRun.run {calls log : List FlagCall} {book : FlagBook}
    (ran : flagMachine.Runs (fun _ call => call.Plain) [] calls log book) : FlagRun log book := by
  refine @Machine.Runs.invariant _ _ _ _ _ _ FlagRun
    ⟨.empty, fun _ impossible => nomatch impossible⟩ ?_ _ _ _ ran
  intro log book call next holds plain stepped
  cases stepped
  exact holds.step plain

/-- Recorded calls of transactions with ids can be made again without a change. -/
theorem FlagRun.again {log : List FlagCall} {book : FlagBook} (holds : FlagRun log book)
    {repeated : List FlagCall} (listed : repeated ⊆ log)
    (named : ∀ call ∈ repeated, call.txid ≠ []) :
    repeated.foldlM FlagCall.apply book = .ok book := by
  induction repeated with
  | nil => rfl
  | cons call rest ih =>
      rw [List.forall_mem_cons] at named
      have first := (holds.recorded call (listed List.mem_cons_self)).again named.1
      rw [List.foldlM_cons, first]
      exact ih (fun _ member => listed (List.mem_cons_of_mem _ member)) named.2

/-- **The flag book.** After any calls from the empty book, the ids are unique and
every flag is kept; a call that fails leaves the book alone; and the calls that
succeeded, as far as their transactions have ids, succeed again and change nothing. -/
theorem flagBook_rules {calls log : List FlagCall} {book : FlagBook}
    (run : flagMachine.Runs (fun _ call => call.Plain) [] calls log book) :
    (book.map Flag.id).Nodup ∧
    (∀ flag ∈ book, flag.claimants.Nodup ∧ flag.claimTxids.length = flag.claimants.length ∧
      (0 < flag.maxClaims → flag.claimants.length ≤ flag.maxClaims.toNat ∧
        flag.escrow.toNat =
          flag.bountyUnits.toNat * (flag.maxClaims.toNat - flag.claimants.length))) ∧
    (∀ call : FlagCall, (call.perform book).2 = false → (call.perform book).1 = book) ∧
    ∀ repeated, repeated ⊆ log → (∀ call ∈ repeated, call.txid ≠ []) →
      repeated.foldlM FlagCall.apply book = .ok book := by
  have holds := FlagRun.run run
  refine ⟨holds.kept.ids, fun flag member => ?_, fun call failed => ?_,
    fun repeated listed named => holds.again listed named⟩
  · have kept := holds.kept.flags flag member
    exact ⟨kept.distinct, kept.recorded, kept.limited⟩
  · unfold FlagCall.perform at failed ⊢
    cases applied : call.apply book with
    | error reason => rfl
    | ok next =>
        rw [applied] at failed
        cases failed

/-- A flag for two claims of ten units, and the claims on it. -/
private def pairCalls : List FlagCall :=
  let event : Flag :=
    ⟨"Event".toList, [], [], 2, 0, 10, [], 0, "create".toList, [], []⟩
  let claimed (recipient txid : String) : FlagCall :=
    .claim "Event".toList recipient.toList [] 3 txid.toList
  [.create event, claimed "ps1aa" "e1", claimed "ps1bb" "e2", claimed "ps1cc" "e3"]

theorem flagBook_rules_pair :
    ∃ log book, flagMachine.Runs (fun _ call => call.Plain) [] pairCalls log book ∧
      log.length = 3 ∧ (book.map fun flag => flag.escrow) = [0] ∧
      (book.map Flag.id).Nodup ∧
      ∀ repeated, repeated ⊆ log → (∀ call ∈ repeated, call.txid ≠ []) →
        repeated.foldlM FlagCall.apply book = .ok book := by
  have permitted : flagMachine.Permits (fun _ call => call.Plain) [] pairCalls :=
    ⟨⟨rfl, rfl⟩, trivial, trivial, trivial, trivial⟩
  obtain ⟨⟨log, book⟩, played⟩ := Option.isSome_iff_exists.mp
    (show (flagMachine.play [] pairCalls).isSome by decide)
  have shown : (flagMachine.play [] pairCalls).map (fun ended =>
      (ended.1.length, ended.2.map fun flag => flag.escrow)) = some (3, [0]) := by
    decide
  rw [played] at shown
  have run := Machine.Runs.of_play permitted played
  have rules := flagBook_rules run
  have ended := Prod.mk.inj (Option.some.inj shown)
  exact ⟨log, book, run, ended.1, ended.2, rules.1, rules.2.2.2⟩

end PiSecure
