import Mathlib.Data.List.Basic

/-! # Runs of a machine

A machine answers calls by changing its state, and reports events while it does
so. A run is a list of calls that satisfy a condition on the state they meet.
What every call of a run preserves holds at its end.
-/

namespace PiSecure

/-- A machine: a call leads to the next state, or to none when the machine
stops, and reports events. -/
structure Machine (State Call Event : Type) where
  step : State → Call → Option State
  events : State → Call → List Event

namespace Machine

variable {State Call Event : Type}

/-- The runs from a start whose calls satisfy a condition, with the events
reported on the way. -/
inductive Runs (machine : Machine State Call Event) (allowed : State → Call → Prop)
    (start : State) : List Call → List Event → State → Prop where
  | nil : Runs machine allowed start [] [] start
  | call {calls : List Call} {log : List Event} {state next : State} {call : Call} :
      Runs machine allowed start calls log state →
      allowed state call →
      machine.step state call = some next →
      Runs machine allowed start (calls ++ [call]) (log ++ machine.events state call) next

variable {machine : Machine State Call Event} {allowed : State → Call → Prop} {start : State}

/-- One more call at the end of a run. -/
theorem Runs.snoc {calls : List Call} {log : List Event} {state next : State}
    (run : machine.Runs allowed start calls log state) (call : Call)
    (permitted : allowed state call)
    (stepped : machine.step state call = some next) :
    machine.Runs allowed start (calls ++ [call]) (log ++ machine.events state call) next :=
  .call run permitted stepped

/-- A run goes on where another one ended. -/
theorem Runs.trans {calls more : List Call} {log rest : List Event} {state final : State}
    (run : machine.Runs allowed start calls log state)
    (others : machine.Runs allowed state more rest final) :
    machine.Runs allowed start (calls ++ more) (log ++ rest) final := by
  induction others with
  | nil => rwa [List.append_nil, List.append_nil]
  | call _ permitted stepped ih =>
      rw [← List.append_assoc, ← List.append_assoc]
      exact .call ih permitted stepped

/-- A run without calls ends where it starts. -/
theorem Runs.of_nil {calls : List Call} {log : List Event} {final : State}
    (run : machine.Runs allowed start calls log final) (none : calls = []) : final = start := by
  cases run with
  | nil => rfl
  | call => exact absurd none (List.append_ne_nil_of_right_ne_nil _ (List.cons_ne_nil _ _))

/-- The invariant rule: what holds at the start and is preserved by every
allowed call holds at the end of every run. -/
theorem Runs.invariant {Inv : List Event → State → Prop} (base : Inv [] start)
    (preserved : ∀ {log state call next}, Inv log state → allowed state call →
      machine.step state call = some next → Inv (log ++ machine.events state call) next)
    {calls : List Call} {log : List Event} {final : State}
    (run : machine.Runs allowed start calls log final) : Inv log final := by
  induction run with
  | nil => exact base
  | call _ permitted stepped ih => exact preserved ih permitted stepped

/-- Every change has a cause: what the state at the end of a run has, and the start
does not, came with one of the calls. -/
theorem Runs.caused {Item : Type} (Has : State → Item → Prop) (Cause : State → Call → Item → Prop)
    (base : ∀ item, ¬Has start item)
    (added : ∀ {state call next item}, allowed state call → machine.step state call = some next →
      Has next item → Has state item ∨ Cause state call item)
    {calls : List Call} {log : List Event} {final : State}
    (run : machine.Runs allowed start calls log final) (item : Item) (has : Has final item) :
    ∃ before call after events state, calls = before ++ call :: after ∧
      machine.Runs allowed start before events state ∧ Cause state call item := by
  induction run with
  | nil => exact absurd has (base item)
  | @call calls log state next call earlier permitted stepped ih =>
      rcases added permitted stepped has with had | caused
      · obtain ⟨before, cause, after, events, middle, rfl, reached, found⟩ := ih had
        refine ⟨before, cause, after ++ [call], events, middle, ?_, reached, found⟩
        rw [List.append_assoc, List.cons_append]
      · exact ⟨calls, call, [], log, state, rfl, earlier, caused⟩

/-- A run under a condition is a run under any weaker one. -/
theorem Runs.weaken {weaker : State → Call → Prop}
    (implied : ∀ state call, allowed state call → weaker state call) {calls : List Call}
    {log : List Event} {final : State} (run : machine.Runs allowed start calls log final) :
    machine.Runs weaker start calls log final := by
  induction run with
  | nil => exact .nil
  | call _ permitted stepped ih => exact .call ih (implied _ _ permitted) stepped

/-- The state and the events after calls, when the machine gets that far. -/
def play (machine : Machine State Call Event) : State → List Call → Option (List Event × State)
  | state, [] => some ([], state)
  | state, call :: rest =>
      (machine.step state call).bind fun next =>
        (machine.play next rest).map fun (log, final) => (machine.events state call ++ log, final)

/-- The condition at every call of a play. -/
def Permits (machine : Machine State Call Event) (allowed : State → Call → Prop) :
    State → List Call → Prop
  | _, [] => True
  | state, call :: rest =>
      allowed state call ∧
        match machine.step state call with
        | none => True
        | some next => machine.Permits allowed next rest

private theorem Runs.extend {calls : List Call} {log : List Event} {state : State}
    (run : machine.Runs allowed start calls log state) {more : List Call}
    (permitted : machine.Permits allowed state more) {added : List Event} {final : State}
    (played : machine.play state more = some (added, final)) :
    machine.Runs allowed start (calls ++ more) (log ++ added) final := by
  induction more generalizing calls log state added with
  | nil =>
      cases played
      rw [List.append_nil, List.append_nil]
      exact run
  | cons call rest ih =>
      obtain ⟨next, stepped, later⟩ := Option.bind_eq_some_iff.mp played
      obtain ⟨⟨tail, ended⟩, playedRest, same⟩ := Option.map_eq_some_iff.mp later
      obtain ⟨rfl, rfl⟩ := Prod.mk.inj same
      simp only [Permits, stepped] at permitted
      have whole := ih (.call run permitted.1 stepped) permitted.2 playedRest
      rw [List.append_assoc, List.append_assoc] at whole
      exact whole

/-- A play whose calls are permitted is a run. -/
theorem Runs.of_play {calls : List Call} {log : List Event} {final : State}
    (permitted : machine.Permits allowed start calls)
    (played : machine.play start calls = some (log, final)) :
    machine.Runs allowed start calls log final :=
  Runs.extend .nil permitted played

/-- Playing calls one part after the other. -/
theorem play_append {state middle final : State} {calls more : List Call} {log added : List Event}
    (played : machine.play state calls = some (log, middle))
    (later : machine.play middle more = some (added, final)) :
    machine.play state (calls ++ more) = some (log ++ added, final) := by
  induction calls generalizing state log with
  | nil =>
      cases played
      exact later
  | cons call rest ih =>
      obtain ⟨next, stepped, remaining⟩ := Option.bind_eq_some_iff.mp played
      obtain ⟨⟨tail, ended⟩, playedRest, same⟩ := Option.map_eq_some_iff.mp remaining
      obtain ⟨rfl, rfl⟩ := Prod.mk.inj same
      rw [List.cons_append, play, stepped, Option.bind_some, ih playedRest, Option.map_some,
        List.append_assoc]

theorem play_singleton {state next : State} {call : Call}
    (stepped : machine.step state call = some next) :
    machine.play state [call] = some (machine.events state call, next) := by
  rw [play, stepped, Option.bind_some, play, Option.map_some]
  dsimp only
  rw [List.append_nil]

theorem Permits.of_forall {state : State} {calls : List Call}
    (all : ∀ call ∈ calls, ∀ state, allowed state call) : machine.Permits allowed state calls := by
  induction calls generalizing state with
  | nil => trivial
  | cons call rest ih =>
      rw [List.forall_mem_cons] at all
      refine ⟨all.1 state, ?_⟩
      cases machine.step state call with
      | none => trivial
      | some next => exact ih all.2

theorem Permits.and {other : State → Call → Prop} {state : State} {calls : List Call}
    (first : machine.Permits allowed state calls) (second : machine.Permits other state calls) :
    machine.Permits (fun state call => allowed state call ∧ other state call) state calls := by
  induction calls generalizing state with
  | nil => trivial
  | cons call rest ih =>
      refine ⟨⟨first.1, second.1⟩, ?_⟩
      have firstRest := first.2
      have secondRest := second.2
      cases stepped : machine.step state call with
      | none => trivial
      | some next =>
          rw [stepped] at firstRest secondRest
          exact ih firstRest secondRest

/-- Refinement: when every call does what its parts do one after the other, a run is
also a run of parts. -/
theorem Runs.refined {finer : State → Call → Prop} {parts : State → Call → List Call}
    (plays : ∀ {state call next}, machine.step state call = some next →
      machine.play state (parts state call) = some (machine.events state call, next))
    (permits : ∀ {state call}, allowed state call → machine.Permits finer state (parts state call))
    {calls : List Call} {log : List Event} {final : State}
    (run : machine.Runs allowed start calls log final) :
    ∃ pieces, machine.Runs finer start pieces log final := by
  induction run with
  | nil => exact ⟨[], .nil⟩
  | call _ permitted stepped ih =>
      obtain ⟨pieces, before⟩ := ih
      exact ⟨_, before.extend (permits permitted) (plays stepped)⟩

end Machine

end PiSecure
