import Mathlib.Logic.Relation

/-! # Input that arrives in pieces

A state takes input in and then takes steps until no step is left. When a step
does not depend on input that has not arrived, only the input as a whole decides
where the steps end, not how it was cut into pieces.
-/

namespace PiSecure

variable {State Symbol : Type}

/-- How input is put to a state, and the steps that a state can take. -/
structure Intake (State Symbol : Type) where
  append : State → List Symbol → State
  step : State → Option State

namespace Intake

variable (intake : Intake State Symbol)

/-- Input joins input, and a step goes the same way with more input behind. -/
structure Steady : Prop where
  append_nil : ∀ state, intake.append state [] = state
  append_append : ∀ state front back,
    intake.append (intake.append state front) back = intake.append state (front ++ back)
  step_append : ∀ {state next : State} (more : List Symbol), intake.step state = some next →
    intake.step (intake.append state more) = some (intake.append next more)

/-- The steps from a state end in another one. -/
structure Drains (state final : State) : Prop where
  steps : Relation.ReflTransGen (fun before after => intake.step before = some after) state final
  stuck : intake.step final = none

variable {intake}

theorem Drains.refl {state : State} (stuck : intake.step state = none) :
    intake.Drains state state := ⟨.refl, stuck⟩

theorem Drains.head {state next final : State} (step : intake.step state = some next)
    (drains : intake.Drains next final) : intake.Drains state final :=
  ⟨.head step drains.steps, drains.stuck⟩

/-- Steps are determined, so there is one end. -/
theorem Drains.unique {state first second : State} (one : intake.Drains state first)
    (other : intake.Drains state second) : first = second := by
  obtain ⟨steps, stuck⟩ := one
  induction steps using Relation.ReflTransGen.head_induction_on with
  | refl =>
      cases other.steps using Relation.ReflTransGen.head_induction_on with
      | refl => rfl
      | head step _ _ =>
          rw [stuck] at step
          cases step
  | head step _ ih =>
      apply ih
      cases other.steps using Relation.ReflTransGen.head_induction_on with
      | refl =>
          rw [other.stuck] at step
          cases step
      | head again rest _ =>
          rw [step] at again
          cases again
          exact ⟨rest, other.stuck⟩

/-- Steps that were taken before more input came are steps with that input, too. -/
theorem Drains.append (steady : intake.Steady) {state between final : State}
    {more : List Symbol} (before : intake.Drains state between)
    (after : intake.Drains (intake.append between more) final) :
    intake.Drains (intake.append state more) final := by
  obtain ⟨steps, _⟩ := before
  induction steps using Relation.ReflTransGen.head_induction_on with
  | refl => exact after
  | head step _ ih => exact ih.head (steady.step_append more step)

/-- Feeding pieces one after the other ends where feeding them at once ends. -/
theorem drains_foldl (steady : intake.Steady) {Piece : Type} {symbols : Piece → List Symbol}
    {feed : State → Piece → State}
    (fed : ∀ state piece, intake.Drains (intake.append state (symbols piece)) (feed state piece))
    (pieces : List Piece) {state : State} (stuck : intake.step state = none) :
    intake.Drains (intake.append state (pieces.flatMap symbols)) (pieces.foldl feed state) := by
  induction pieces generalizing state with
  | nil =>
      rw [List.flatMap_nil, steady.append_nil]
      exact Drains.refl stuck
  | cons piece pieces ih =>
      rw [List.flatMap_cons, ← steady.append_append]
      exact (fed state piece).append steady (ih (fed state piece).stuck)

/-- How the input is cut does not matter. -/
theorem foldl_eq (steady : intake.Steady) {Piece : Type} {symbols : Piece → List Symbol}
    {feed : State → Piece → State}
    (fed : ∀ state piece, intake.Drains (intake.append state (symbols piece)) (feed state piece))
    {first second : List Piece} (same : first.flatMap symbols = second.flatMap symbols)
    {state : State} (stuck : intake.step state = none) :
    first.foldl feed state = second.foldl feed state := by
  have one := drains_foldl steady fed first stuck
  rw [same] at one
  exact one.unique (drains_foldl steady fed second stuck)

end Intake

end PiSecure
