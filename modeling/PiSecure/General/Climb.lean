import Mathlib.Data.List.Nodup
import Mathlib.Data.List.Perm.Subperm

/-! # Climbing to a stop

Items name their parents, and some of them have a stop. The way from an item up to
the first item with a stop is unique and meets nothing twice. A climb that remembers
the keys it has met finds that way among finitely many items, whatever the graph of
parents is, and is over before its fuel is.
-/

namespace PiSecure

variable {Item Stop Key : Type}

/-- The way from an item up to the first item with a stop, topmost item first. -/
inductive Climbs (parent : Item → Option Item) (stop : Item → Option Stop) :
    Item → Stop → List Item → Prop where
  | here {item : Item} {found : Stop} : stop item = some found →
      Climbs parent stop item found [item]
  | up {item above : Item} {found : Stop} {way : List Item} : stop item = none →
      parent item = some above → Climbs parent stop above found way →
      Climbs parent stop item found (way ++ [item])

/-- The climb from an item with some fuel, when some keys have been met before. -/
def climb [DecidableEq Key] (parent : Item → Option Item) (stop : Item → Option Stop)
    (key : Item → Key) : Nat → List Key → Item → Option (Stop × List Item)
  | 0, _, _ => none
  | fuel + 1, seen, item =>
      if key item ∈ seen then none
      else
        match stop item with
        | some found => some (found, [item])
        | none =>
            match parent item with
            | none => none
            | some above =>
                (climb parent stop key fuel (key item :: seen) above).map
                  fun (found, way) => (found, way ++ [item])

variable {parent : Item → Option Item} {stop : Item → Option Stop}

namespace Climbs

variable {item : Item} {found : Stop} {way : List Item}

/-- There is one way up from an item. -/
theorem unique (climbs : Climbs parent stop item found way) {other : Stop} {otherWay : List Item}
    (others : Climbs parent stop item other otherWay) : found = other ∧ way = otherWay := by
  induction climbs generalizing other otherWay with
  | here stops =>
      cases others with
      | here same =>
          rw [stops] at same
          exact ⟨Option.some.inj same, rfl⟩
      | up passes =>
          rw [stops] at passes
          cases passes
  | up passes named _ ih =>
      cases others with
      | here stops =>
          rw [passes] at stops
          cases stops
      | up _ otherNamed later =>
          rw [named] at otherNamed
          cases otherNamed
          obtain ⟨sameStop, sameWay⟩ := ih later
          exact ⟨sameStop, by rw [sameWay]⟩

/-- An item on a way has the part above it as its own way. -/
theorem of_mem (climbs : Climbs parent stop item found way) {met : Item} (member : met ∈ way) :
    ∃ top, Climbs parent stop met found top ∧ top <+: way := by
  induction climbs with
  | here stops =>
      rw [List.mem_singleton.mp member]
      exact ⟨_, .here stops, List.prefix_refl _⟩
  | up passes named later ih =>
      rcases List.mem_append.mp member with above | isItem
      · obtain ⟨top, climbs, inside⟩ := ih above
        exact ⟨top, climbs, inside.trans (List.prefix_append _ _)⟩
      · rw [List.mem_singleton.mp isItem]
        exact ⟨_, .up passes named later, List.prefix_refl _⟩

/-- A way meets no item twice. -/
theorem nodup (climbs : Climbs parent stop item found way) : way.Nodup := by
  induction climbs with
  | here => exact List.nodup_singleton _
  | @up item above found way passes named later ih =>
      rw [← List.concat_eq_append]
      refine ih.concat fun again => ?_
      obtain ⟨top, climbs, inside⟩ := later.of_mem again
      have longer := congrArg List.length (climbs.unique (.up passes named later)).2
      have shorter := inside.length_le
      rw [List.length_append, List.length_singleton] at longer
      omega

/-- A way through items whose parents are among them stays among them. -/
theorem mem_items (climbs : Climbs parent stop item found way) {items : List Item}
    (closed : ∀ below ∈ items, ∀ above, parent below = some above → above ∈ items)
    (member : item ∈ items) : ∀ met ∈ way, met ∈ items := by
  induction climbs with
  | here => exact List.forall_mem_singleton.mpr member
  | up _ named _ ih =>
      intro met onWay
      rcases List.mem_append.mp onWay with above | isItem
      · exact ih (closed _ member _ named) met above
      · exact List.mem_singleton.mp isItem ▸ member

end Climbs

section Climb

variable [DecidableEq Key] {key : Item → Key}

/-- What a climb finds is the way up. -/
theorem Climbs.of_climb {fuel : Nat} {seen : List Key} {item : Item} {found : Stop}
    {way : List Item} (climbed : climb parent stop key fuel seen item = some (found, way)) :
    Climbs parent stop item found way := by
  induction fuel generalizing seen item way with
  | zero => cases climbed
  | succ fuel ih =>
      rw [climb] at climbed
      split at climbed
      · cases climbed
      · split at climbed
        next stops =>
          cases climbed
          exact .here stops
        next passes =>
          split at climbed
          · cases climbed
          next above named =>
            obtain ⟨⟨top, front⟩, later, same⟩ := Option.map_eq_some_iff.mp climbed
            cases same
            exact .up passes named (ih later)

/-- A climb with enough fuel finds the way up, when no key on it was met before. -/
theorem Climbs.climb_eq {item : Item} {found : Stop} {way : List Item}
    (climbs : Climbs parent stop item found way) {fuel : Nat} (enough : way.length ≤ fuel)
    {seen : List Key} (unseen : ∀ met ∈ way, key met ∉ seen) (distinct : (way.map key).Nodup) :
    climb parent stop key fuel seen item = some (found, way) := by
  induction climbs generalizing fuel seen with
  | here stops =>
      rw [List.length_singleton] at enough
      obtain ⟨rest, rfl⟩ : ∃ rest, fuel = rest + 1 := ⟨fuel - 1, by omega⟩
      rw [climb, if_neg (unseen _ (List.mem_singleton_self _)), stops]
  | @up item above found way passes named later ih =>
      rw [List.length_append, List.length_singleton] at enough
      obtain ⟨rest, rfl⟩ : ∃ rest, fuel = rest + 1 := ⟨fuel - 1, by omega⟩
      rw [List.map_append, List.map_singleton, ← List.concat_eq_append, List.nodup_concat]
        at distinct
      have fresh : ∀ met ∈ way, key met ∉ key item :: seen := by
        intro met member again
        rcases List.mem_cons.mp again with same | old
        · exact distinct.1 (same ▸ List.mem_map_of_mem member)
        · exact unseen met (List.mem_append_left _ member) old
      have new := unseen item (List.mem_append_right _ (List.mem_singleton_self _))
      rw [climb, if_neg new, passes, named]
      dsimp only
      rw [ih (by omega) fresh distinct.2]
      rfl

/-- Among finitely many items with keys of their own, a climb with a unit of fuel for each
finds exactly the ways up. -/
theorem climb_eq_some_iff {items : List Item} (distinct : (items.map key).Nodup)
    (closed : ∀ below ∈ items, ∀ above, parent below = some above → above ∈ items) {item : Item}
    (member : item ∈ items) {fuel : Nat} (enough : items.length ≤ fuel) {found : Stop}
    {way : List Item} :
    climb parent stop key fuel [] item = some (found, way) ↔ Climbs parent stop item found way := by
  refine ⟨Climbs.of_climb, fun climbs => ?_⟩
  have inside := climbs.mem_items closed member
  have short := (climbs.nodup.subperm inside).length_le
  refine climbs.climb_eq (by omega) (fun _ _ => List.not_mem_nil) ?_
  exact (List.nodup_map_iff_inj_on climbs.nodup).mpr fun first firstOn second secondOn same =>
    List.inj_on_of_nodup_map distinct (inside first firstOn) (inside second secondOn) same

/-- A climb is over before it has met more keys than there are items. -/
theorem climb_fuel {items : List Item}
    (closed : ∀ below ∈ items, ∀ above, parent below = some above → above ∈ items) {item : Item}
    (member : item ∈ items) {fuel : Nat} {seen : List Key}
    (enough : (items.filter fun other => key other ∉ seen).length < fuel) :
    climb parent stop key (fuel + 1) seen item = climb parent stop key fuel seen item := by
  induction fuel generalizing item seen with
  | zero => cases enough
  | succ fuel ih =>
      rw [climb, climb]
      by_cases met : key item ∈ seen
      · rw [if_pos met, if_pos met]
      · rw [if_neg met, if_neg met]
        cases stop item with
        | some found => rfl
        | none =>
            cases named : parent item with
            | none => rfl
            | some above =>
                have fewer : (items.filter fun other => key other ∉ key item :: seen).length <
                    (items.filter fun other => key other ∉ seen).length := by
                  have split : (items.filter fun other => key other ∉ key item :: seen) =
                      (items.filter fun other => key other ∉ seen).filter
                        fun other => key other ≠ key item := by
                    rw [List.filter_filter]
                    refine List.filter_congr fun other _ => ?_
                    rw [← Bool.decide_and]
                    exact decide_eq_decide.mpr (by rw [List.mem_cons, not_or])
                  rw [split]
                  refine List.length_filter_lt_length_iff_exists.mpr ⟨item, ?_, ?_⟩
                  · exact List.mem_filter.mpr ⟨member, decide_eq_true met⟩
                  · exact fun differs => of_decide_eq_true differs rfl
                dsimp only
                rw [ih (closed item member above named) (by omega)]

end Climb

end PiSecure
