import Mathlib.Data.Fintype.Card
import Mathlib.Data.Set.Finite.List
import Mathlib.Logic.Relation

/-! # Orders in which what an item needs comes first

Items need items. An item of a finite collection depends on a cycle exactly when
it is not accessible along its needs. An order that lists the needs of each item
before it lists accessible items only, and an order that nothing can extend lists
all of them.
-/

namespace PiSecure

open Relation

variable {Item : Type} (Needs : Item → Item → Prop)

/-- What an item needs, and so on, leads into a cycle. -/
def DependsOnCycle (item : Item) : Prop :=
  ∃ looped, ReflTransGen Needs item looped ∧ TransGen Needs looped looped

/-- Each listed item comes after everything it needs. -/
def NeedsFirst (order : List Item) : Prop :=
  ∀ before item after, order = before ++ item :: after →
    ∀ needed, Needs item needed → needed ∈ before

/-- An item that no infinite chain of needs starts from. -/
def Settled (item : Item) : Prop := Acc (fun needed item => Needs item needed) item

variable {Needs}

namespace Settled

/-- What a settled item needs is settled. -/
theorem needed {item needed : Item} (settled : Settled Needs item) (needs : Needs item needed) :
    Settled Needs needed :=
  settled.inv needs

/-- A settled item depends on no cycle. -/
theorem not_dependsOnCycle {item : Item} (settled : Settled Needs item) :
    ¬DependsOnCycle Needs item := by
  induction settled with
  | intro item _ ih =>
      rintro ⟨looped, reached, loop⟩
      rcases reached.cases_head with rfl | ⟨next, needs, later⟩
      · obtain ⟨next, needs, back⟩ := TransGen.head'_iff.mp loop
        exact ih next needs ⟨item, back, loop⟩
      · exact ih next needs ⟨looped, later, loop⟩

/-- In a finite collection, an item that depends on no cycle is settled. -/
theorem of_not_dependsOnCycle {items : List Item}
    (inside : ∀ item needed, Needs item needed → item ∈ items ∧ needed ∈ items) {item : Item}
    (free : ¬DependsOnCycle Needs item) : Settled Needs item := by
  -- The needs below items without a cycle, between the listed items.
  let Below : {item // item ∈ items} → {item // item ∈ items} → Prop := fun needed item =>
    TransGen Needs item.1 needed.1 ∧ ¬DependsOnCycle Needs item.1
  have : Finite {item // item ∈ items} := items.finite_toSet
  have : IsTrans _ Below := ⟨fun _ _ _ first second => ⟨second.1.trans first.1, second.2⟩⟩
  have : Std.Irrefl Below := ⟨fun item loop => loop.2 ⟨item.1, .refl, loop.1⟩⟩
  have founded : WellFounded Below := Finite.wellFounded_of_trans_of_irrefl Below
  have listed : ∀ place : {item // item ∈ items}, ¬DependsOnCycle Needs place.1 →
      Settled Needs place.1 := by
    intro place
    induction founded.apply place with
    | intro place _ ih =>
        intro free
        refine .intro _ fun needed needs => ?_
        refine ih ⟨needed, (inside _ _ needs).2⟩ ⟨.single needs, free⟩ ?_
        rintro ⟨looped, reached, loop⟩
        exact free ⟨looped, reached.head needs, loop⟩
  refine .intro _ fun needed needs => ?_
  exact (listed ⟨item, (inside _ _ needs).1⟩ free).needed needs

end Settled

namespace NeedsFirst

variable {order : List Item} {item : Item}

theorem nil : NeedsFirst Needs [] := by
  intro before item after split
  cases before <;> cases split

/-- An item whose needs are listed can come next. -/
theorem append_singleton (first : NeedsFirst Needs order)
    (ready : ∀ needed, Needs item needed → needed ∈ order) :
    NeedsFirst Needs (order ++ [item]) := by
  intro before other after split needed needs
  rcases List.eq_nil_or_concat' after with rfl | ⟨front, last, rfl⟩
  · obtain ⟨rfl, same⟩ := List.append_inj' split rfl
    cases same
    exact ready needed needs
  · rw [← List.cons_append, ← List.append_assoc] at split
    obtain ⟨whole, _⟩ := List.append_inj' split rfl
    exact first before other front whole needed needs

/-- Everything that is listed is settled. -/
theorem settled (first : NeedsFirst Needs order) (listed : item ∈ order) :
    Settled Needs item := by
  have shorter : ∀ bound before item after, order = before ++ item :: after →
      before.length < bound → Settled Needs item := by
    intro bound
    induction bound with
    | zero => exact fun _ _ _ _ impossible => absurd impossible (Nat.not_lt_zero _)
    | succ bound ih =>
        intro before item after split below
        refine .intro _ fun needed needs => ?_
        obtain ⟨front, back, place⟩ :=
          List.append_of_mem (first before item after split needed needs)
        refine ih front needed (back ++ item :: after) (by rw [split, place]; simp) ?_
        have size := congrArg List.length place
        rw [List.length_append, List.length_cons] at size
        omega
  obtain ⟨before, after, split⟩ := List.append_of_mem listed
  exact shorter _ before item after split (Nat.lt_succ_self _)

/-- An order that cannot be extended lists every settled item. -/
theorem mem_of_stuck {items : List Item}
    (stuck : ∀ item ∈ items, item ∉ order → ∃ needed ∈ items, Needs item needed ∧ needed ∉ order)
    (member : item ∈ items) (settled : Settled Needs item) : item ∈ order := by
  induction settled with
  | intro item _ ih =>
      by_contra missing
      obtain ⟨needed, listed, needs, absent⟩ := stuck item member missing
      exact absent (ih needed needs listed)

end NeedsFirst

end PiSecure
