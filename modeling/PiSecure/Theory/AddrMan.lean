import PiSecure.Model.AddrMan

/-! # The address book locks itself out

A failure that makes ten bans the address, and the ban waits for the lock that the
failure holds. A run of calls returns exactly when no failure is counted so far.
-/

namespace PiSecure

namespace AddrMan

/-! ## The lock -/

/-- A body that returns with the lock held leaves it free. -/
theorem withLock_eq {Answer : Type} {book : AddrMan} {body : AddrMan → Option (Answer × AddrMan)}
    (free : book.held = false) : book.withLock body = (body { book with held := true }).map
      fun outcome => (outcome.1, { outcome.2 with held := false }) := by
  rw [withLock, free, if_neg Bool.false_ne_true]

theorem withLock_held {Answer : Type} {book : AddrMan}
    {body : AddrMan → Option (Answer × AddrMan)} (held : book.held = true) :
    book.withLock body = none := by
  rw [withLock, if_pos held]

/-- A call that returns leaves the lock free. -/
theorem withLock_free {Answer : Type} {book next : AddrMan} {answer : Answer}
    {body : AddrMan → Option (Answer × AddrMan)}
    (returned : book.withLock body = some (answer, next)) :
    next.held = false := by
  rw [withLock] at returned
  split at returned
  · cases returned
  · obtain ⟨outcome, _, same⟩ := Option.map_eq_some_iff.mp returned
    cases same
    rfl

/-! ## One call -/

/-- A failure of an address that is listed stays below ten. -/
def Below (book : AddrMan) (call : UInt64 × Call) : Prop :=
  ∀ addr, call.2 = .markFailure addr → ∀ existing,
    book.addrList.find? (·.same addr) = some existing → existing.failures + 1 < 10

theorem below_of_other {book : AddrMan} {now : UInt64} {call : Call}
    (other : ∀ addr, call ≠ .markFailure addr) : Below book (now, call) :=
  fun addr same => absurd same (other addr)

/-- A failure returns exactly when it stays below ten. -/
theorem markFailure_isSome {book : AddrMan} {now : UInt64} {addr : PeerAddr}
    (free : book.held = false) :
    (book.markFailure now addr).isSome ↔ Below book (now, .markFailure addr) := by
  rw [markFailure, withLock_eq free, Option.isSome_map]
  dsimp only
  cases found : book.addrList.find? (·.same addr) with
  | none =>
      refine ⟨fun _ other same existing listed => ?_, fun _ => rfl⟩
      cases same
      rw [found] at listed
      cases listed
  | some existing =>
      dsimp only
      by_cases many : existing.failures + 1 ≥ 10
      · rw [if_pos many, ban, withLock_held rfl]
        refine ⟨fun returned => absurd returned Bool.false_ne_true, fun below => ?_⟩
        exact absurd (below addr rfl existing found) (Int32.not_lt.mpr many)
      · rw [if_neg many]
        refine ⟨fun _ other same listed => ?_, fun _ => rfl⟩
        cases same
        intro again
        rw [found] at again
        cases again
        exact Int32.not_le.mp many

/-- A call returns exactly when it counts no failure up to ten. -/
theorem step_isSome {book : AddrMan} (free : book.held = false) (call : UInt64 × Call) :
    (machine.step book call).isSome ↔ Below book call := by
  obtain ⟨now, call⟩ := call
  change ((book.perform now call).map Prod.snd).isSome = true ↔ _
  rw [Option.isSome_map]
  cases call with
  | add addr =>
      refine iff_of_true ?_ (below_of_other fun _ => Call.noConfusion)
      rw [perform, Option.isSome_map, add, withLock_eq free, Option.isSome_map]
      split
      · rfl
      · split <;> rfl
  | select draw =>
      refine iff_of_true ?_ (below_of_other fun _ => Call.noConfusion)
      rw [perform, Option.isSome_map, select, withLock_eq free, Option.isSome_map]
      split
      · rfl
      · dsimp only
        split <;> rfl
  | getMany n =>
      refine iff_of_true ?_ (below_of_other fun _ => Call.noConfusion)
      rw [perform, Option.isSome_map, getMany, withLock_eq free, Option.isSome_map]
      rfl
  | markGood addr =>
      refine iff_of_true ?_ (below_of_other fun _ => Call.noConfusion)
      rw [perform, Option.isSome_map, markGood, withLock_eq free, Option.isSome_map]
      rfl
  | markAttempt addr =>
      refine iff_of_true ?_ (below_of_other fun _ => Call.noConfusion)
      rw [perform, Option.isSome_map, markAttempt, withLock_eq free, Option.isSome_map]
      rfl
  | markFailure addr =>
      rw [perform, Option.isSome_map]
      exact markFailure_isSome free
  | ban addr =>
      refine iff_of_true ?_ (below_of_other fun _ => Call.noConfusion)
      rw [perform, Option.isSome_map, ban, withLock_eq free, Option.isSome_map]
      rfl
  | isBanned addr =>
      exact iff_of_true rfl (below_of_other fun _ => Call.noConfusion)

/-- A call that returns leaves the lock free. -/
theorem step_free {book next : AddrMan} (free : book.held = false) {call : UInt64 × Call}
    (stepped : machine.step book call = some next) : next.held = false := by
  obtain ⟨now, call⟩ := call
  obtain ⟨⟨answer, after⟩, performed, same⟩ := Option.map_eq_some_iff.mp stepped
  cases same
  cases call with
  | isBanned addr =>
      cases performed
      exact free
  | _ =>
      obtain ⟨outcome, returned, same⟩ := Option.map_eq_some_iff.mp performed
      cases same
      exact withLock_free returned

/-! ## Runs -/

theorem play_isSome_iff {book : AddrMan} (free : book.held = false) (calls : List (UInt64 × Call)) :
    (machine.play book calls).isSome ↔ machine.Permits Below book calls := by
  induction calls generalizing book with
  | nil => exact iff_of_true rfl trivial
  | cons call rest ih =>
      have returns := step_isSome free call
      rw [Machine.play, Machine.Permits]
      cases stepped : machine.step book call with
      | none =>
          rw [stepped] at returns
          rw [Option.bind_none]
          exact iff_of_false Bool.false_ne_true fun permitted =>
            Bool.false_ne_true (returns.mpr permitted.1)
      | some next =>
          rw [stepped] at returns
          rw [Option.bind_some, Option.isSome_map, ih (step_free free stepped)]
          exact ⟨fun later => ⟨returns.mp rfl, later⟩, fun permitted => permitted.2⟩

/-- **No lockout.** Calls on a new book all return exactly when no call counts a tenth failure. -/
theorem unlocked_iff (calls : List (UInt64 × Call)) :
    (machine.play empty calls).isSome ↔ machine.Permits Below empty calls :=
  play_isSome_iff rfl calls

/-- A peer that is added and fails ten times. -/
def failingCalls : List (UInt64 × Call) :=
  let addr : PeerAddr := ⟨AF_INET, 16777343, 18444, 0, 1, 0⟩
  (0, .add addr) :: List.replicate 10 (0, .markFailure addr)

/-- The tenth failure never returns. -/
theorem tenth_failure_locks : machine.play empty failingCalls = none := by
  rw [← Option.not_isSome_iff_eq_none]
  decide

end AddrMan

end PiSecure
