/-! # Places that a scan visits

A scan goes from each place to a later one. Of two places that it visits, the
later one is visited from the earlier one, and a place is visited exactly when
no jump passes over it.
-/

namespace PiSecure

/-- The places that a scan visits from a start. -/
inductive Visits (next : Nat → Nat) (start : Nat) : Nat → Prop where
  | start : Visits next start start
  | step {place : Nat} (before : Visits next start place) : Visits next start (next place)

namespace Visits

variable {next : Nat → Nat} {start place other : Nat}

theorem trans (first : Visits next start place) (later : Visits next place other) :
    Visits next start other := by
  induction later with
  | start => exact first
  | step _ ih => exact ih.step

/-- A scan that starts at a place goes on from the place after it. -/
theorem cases_head (visits : Visits next start place) :
    place = start ∨ Visits next (next start) place := by
  induction visits with
  | start => exact .inl rfl
  | step _ ih =>
      obtain rfl | later := ih
      · exact .inr .start
      · exact .inr later.step

section Forward

variable (forward : ∀ place, place < next place)
include forward

theorem le (visits : Visits next start place) : start ≤ place := by
  induction visits with
  | start => exact Nat.le_refl _
  | step _ ih => exact Nat.le_of_lt (Nat.lt_of_le_of_lt ih (forward _))

/-- Of two visited places the later one is visited from the earlier one. -/
theorem of_le (first : Visits next start place) (second : Visits next start other)
    (order : place ≤ other) : Visits next place other := by
  induction first with
  | start => exact second
  | @step place _ ih =>
      obtain rfl | later :=
        (ih (Nat.le_of_lt (Nat.lt_of_lt_of_le (forward place) order))).cases_head
      · exact absurd (forward other) (Nat.not_lt.mpr order)
      · exact later

/-- A visited place is not passed over. -/
theorem next_le (first : Visits next start place) (second : Visits next start other)
    (order : place < other) : next place ≤ other := by
  obtain rfl | later := (of_le forward first second (Nat.le_of_lt order)).cases_head
  · exact absurd order (Nat.lt_irrefl _)
  · exact later.le forward

/-- Every place behind the start is visited or passed over. -/
theorem or_passed (behind : start ≤ place) :
    Visits next start place ∨ ∃ before, Visits next start before ∧ before < place ∧
      place < next before := by
  induction gap : place - start using Nat.strongRecOn generalizing start with
  | ind size ih =>
      by_cases here : start = place
      · exact .inl (here ▸ .start)
      by_cases passed : place < next start
      · exact .inr ⟨start, .start, by omega, passed⟩
      have moved := forward start
      obtain visited | ⟨before, visited, order, passed⟩ :=
        ih (place - next start) (by omega) (Nat.le_of_not_lt passed) rfl
      · exact .inl (Visits.start.step.trans visited)
      · exact .inr ⟨before, Visits.start.step.trans visited, order, passed⟩

/-- A place is visited exactly when no jump passes over it. -/
theorem iff_not_passed (behind : start ≤ place) :
    Visits next start place ↔
      ∀ before, Visits next start before → before < place → next before ≤ place := by
  constructor
  · intro visited before earlier order
    exact next_le forward earlier visited order
  · intro unpassed
    obtain visited | ⟨before, earlier, order, passed⟩ := or_passed forward behind
    · exact visited
    · exact absurd (unpassed before earlier order) (Nat.not_le.mpr passed)

end Forward

end Visits

end PiSecure
