import Mathlib.Data.List.Nodup

/-! # Trees over lists of ids

A list is folded to a root by pairing neighbours level by level; a last node
without a partner is paired with itself. Lists of different lengths can share a
root, but then one of them repeats an id, as long as no two different pairs that
are hashed collide and no pair collides with an id.
-/

namespace PiSecure.Merkle

variable {Id : Type}

/-- The couples of one level. -/
def couples : List Id → List (Id × Id)
  | [] => []
  | [last] => [(last, last)]
  | left :: right :: rest => (left, right) :: couples rest

variable (pair : Id → Id → Id)

/-- One level up. -/
def level (ids : List Id) : List Id := (couples ids).map fun couple => pair couple.1 couple.2

omit pair in
theorem length_couples (ids : List Id) : (couples ids).length = (ids.length + 1) / 2 := by
  induction ids using couples.induct with
  | case1 => simp only [couples, List.length_nil, Nat.zero_add, Nat.reduceDiv]
  | case2 last => simp only [couples, List.length_singleton, Nat.reduceAdd, Nat.reduceDiv]
  | case3 left right rest ih =>
      rw [couples, List.length_cons, ih, List.length_cons, List.length_cons]
      omega

omit pair in
/-- A couple is made of ids of the list. -/
theorem mem_of_mem_couples {ids : List Id} {couple : Id × Id} (member : couple ∈ couples ids) :
    couple.1 ∈ ids ∧ couple.2 ∈ ids := by
  induction ids using couples.induct with
  | case1 =>
      rw [couples] at member
      cases member
  | case2 last =>
      rw [couples] at member
      rw [List.mem_singleton.mp member]
      exact ⟨List.mem_singleton_self _, List.mem_singleton_self _⟩
  | case3 left right rest ih =>
      rw [couples] at member
      rcases List.mem_cons.mp member with rfl | later
      · exact ⟨List.mem_cons_self, List.mem_cons_of_mem _ List.mem_cons_self⟩
      · obtain ⟨first, second⟩ := ih later
        exact ⟨List.mem_cons_of_mem _ (List.mem_cons_of_mem _ first),
          List.mem_cons_of_mem _ (List.mem_cons_of_mem _ second)⟩

theorem length_level (ids : List Id) : (level pair ids).length = (ids.length + 1) / 2 := by
  rw [level, List.length_map, length_couples]

/-- The root of a list; none when it is empty. -/
def root (ids : List Id) : Option Id :=
  match ids with
  | [] => none
  | [single] => some single
  | left :: right :: rest => root (level pair (left :: right :: rest))
termination_by ids.length
decreasing_by
  rw [length_level]
  simp only [List.length_cons]
  omega

/-- A list with ids has a root. -/
theorem exists_root {ids : List Id} (nonempty : ids ≠ []) : ∃ top, root pair ids = some top := by
  induction ids using root.induct pair with
  | case1 => exact absurd rfl nonempty
  | case2 single => exact ⟨single, by rw [root]⟩
  | case3 left right rest ih =>
      rw [root]
      refine ih fun none => ?_
      have length := congrArg List.length none
      rw [length_level, List.length_cons, List.length_cons, List.length_nil] at length
      omega

/-- Every couple that is hashed on the way to the root. -/
def hashed (ids : List Id) : List (Id × Id) :=
  match ids with
  | [] => []
  | [_] => []
  | left :: right :: rest =>
      couples (left :: right :: rest) ++ hashed (level pair (left :: right :: rest))
termination_by ids.length
decreasing_by
  rw [length_level]
  simp only [List.length_cons]
  omega

/-! ## Separated hashes -/

/-- No two of the couples have one hash, and none has the hash of a leaf. -/
structure Separate (leaves : List Id) (hashes : List (Id × Id)) : Prop where
  injective : ∀ first ∈ hashes, ∀ second ∈ hashes,
    pair first.1 first.2 = pair second.1 second.2 → first = second
  apart : ∀ leaf ∈ leaves, ∀ couple ∈ hashes, pair couple.1 couple.2 ≠ leaf

/-- The nodes of a tree over leaves, by their height above them. -/
inductive Tier (leaves : List Id) (hashes : List (Id × Id)) : Nat → Id → Prop where
  | leaf {id : Id} : id ∈ leaves → Tier leaves hashes 0 id
  | node {height : Nat} {left right : Id} :
    (left, right) ∈ hashes → Tier leaves hashes height left →
      Tier leaves hashes height right → Tier leaves hashes (height + 1) (pair left right)

section Tiers

variable {pair} {leaves : List Id} {hashes : List (Id × Id)}

/-- A node has one height. -/
theorem Tier.unique (separate : Separate pair leaves hashes) {first second : Nat} {id : Id}
    (low : Tier pair leaves hashes first id) (high : Tier pair leaves hashes second id) :
    first = second := by
  induction low generalizing second with
  | @leaf id member =>
      generalize same : id = node at high
      cases high with
      | leaf _ => rfl
      | node coupled _ _ => exact absurd same.symm (separate.apart id member _ coupled)
  | @node height left right coupled _ _ ih _ =>
      generalize same : pair left right = node at high
      cases high with
      | leaf member => exact absurd same (separate.apart _ member _ coupled)
      | node other below _ =>
          obtain ⟨rfl, rfl⟩ := Prod.mk.inj (separate.injective _ coupled _ other same)
          rw [ih below]

/-- Pairing nodes of one height gives nodes one higher. -/
theorem Tier.level {height : Nat} {ids : List Id}
    (tiers : ∀ id ∈ ids, Tier pair leaves hashes height id)
    (coupled : couples ids ⊆ hashes) :
    ∀ id ∈ Merkle.level pair ids, Tier pair leaves hashes (height + 1) id := by
  intro id member
  obtain ⟨couple, inside, rfl⟩ := List.mem_map.mp member
  have parts := mem_of_mem_couples inside
  exact .node (coupled inside) (tiers _ parts.1) (tiers _ parts.2)

/-- The root is as high as the tree, and above the ids when there are several. -/
theorem Tier.root {height : Nat} {ids : List Id} {top : Id}
    (tiers : ∀ id ∈ ids, Tier pair leaves hashes height id)
    (inside : hashed pair ids ⊆ hashes) (rooted : Merkle.root pair ids = some top) :
    ∃ above, Tier pair leaves hashes (height + above) top ∧ (2 ≤ ids.length → 0 < above) := by
  induction ids using Merkle.root.induct pair generalizing height with
  | case1 =>
      rw [Merkle.root] at rooted
      cases rooted
  | case2 single =>
      rw [Merkle.root] at rooted
      cases rooted
      exact ⟨0, tiers top (List.mem_singleton_self _), fun several => absurd several (by simp)⟩
  | case3 left right rest ih =>
      rw [hashed] at inside
      rw [Merkle.root] at rooted
      have coupled := List.append_subset.mp inside
      obtain ⟨above, tier, _⟩ := ih (Tier.level tiers coupled.1) coupled.2 rooted
      refine ⟨above + 1, ?_, fun _ => Nat.succ_pos _⟩
      rw [Nat.add_assoc, Nat.add_comm 1] at tier
      exact tier

end Tiers

/-! ## Repeated ids -/

/-- A list without repetition has no couple twice. -/
theorem couples_nodup {ids : List Id} (distinct : ids.Nodup) : (couples ids).Nodup := by
  induction ids using couples.induct with
  | case1 =>
      rw [couples]
      exact List.nodup_nil
  | case2 last =>
      rw [couples]
      exact List.nodup_singleton _
  | case3 left right rest ih =>
      rw [List.nodup_cons, List.nodup_cons] at distinct
      obtain ⟨fresh, _, others⟩ := distinct
      rw [couples, List.nodup_cons]
      exact ⟨fun again => fresh (List.mem_cons_of_mem _ (mem_of_mem_couples again).1), ih others⟩

/-- Lists with the same couples are the same, or the second repeats its last id. -/
theorem eq_of_couples {first second : List Id} (distinct : first.Nodup)
    (same : couples first = couples second) : first = second ∨ ¬second.Nodup := by
  induction first using couples.induct generalizing second with
  | case1 =>
      have none := congrArg List.length same
      rw [length_couples, length_couples, List.length_nil] at none
      exact .inl (List.length_eq_zero_iff.mp (by omega)).symm
  | case2 last =>
      rcases second with - | ⟨left, - | ⟨right, rest⟩⟩
      · cases same
      · exact .inl (congrArg (fun couple => [couple.1]) (List.cons.inj same).1)
      · obtain ⟨rfl, rfl⟩ := Prod.mk.inj (List.cons.inj same).1
        exact .inr fun once => (List.nodup_cons.mp once).1 List.mem_cons_self
  | case3 left right rest ih =>
      rcases second with - | ⟨left', - | ⟨right', rest'⟩⟩
      · cases same
      · obtain ⟨rfl, rfl⟩ := Prod.mk.inj (List.cons.inj same).1
        exact absurd List.mem_cons_self (List.nodup_cons.mp distinct).1
      · obtain ⟨heads, tails⟩ := List.cons.inj same
        obtain ⟨rfl, rfl⟩ := Prod.mk.inj heads
        rw [List.nodup_cons, List.nodup_cons] at distinct
        rcases ih distinct.2.2 tails with rfl | again
        · exact .inl rfl
        · exact .inr fun once => again (List.nodup_cons.mp (List.nodup_cons.mp once).2).2

section Pins

variable {pair} {leaves : List Id} {hashes : List (Id × Id)}

/-- Separate couples have separate hashes. -/
theorem Separate.level_nodup (separate : Separate pair leaves hashes) {ids : List Id}
    (coupled : couples ids ⊆ hashes) (distinct : ids.Nodup) : (level pair ids).Nodup :=
  (couples_nodup distinct).map_on fun first firstIn second secondIn same =>
    separate.injective first (coupled firstIn) second (coupled secondIn) same

/-- Levels with the same hashes have the same couples. -/
theorem Separate.couples_eq (separate : Separate pair leaves hashes) {first second : List Id}
    (firstIn : couples first ⊆ hashes) (secondIn : couples second ⊆ hashes)
    (same : level pair first = level pair second) : couples first = couples second := by
  unfold level at same
  generalize couples first = one at firstIn same
  generalize couples second = other at secondIn same
  induction one generalizing other with
  | nil => exact (List.map_eq_nil_iff.mp same.symm).symm
  | cons couple rest ih =>
      rcases other with - | ⟨couple', rest'⟩
      · cases same
      · obtain ⟨heads, tails⟩ := List.cons.inj same
        rw [List.cons_subset] at firstIn secondIn
        rw [separate.injective _ firstIn.1 _ secondIn.1 heads, ih firstIn.2 rest' secondIn.2 tails]

/-- Lists of nodes of one height with the same root are the same, or the second
repeats an id. -/
theorem Separate.pins (separate : Separate pair leaves hashes) {height : Nat}
    {first second : List Id} (nonempty : first ≠ [])
    (firstTiers : ∀ id ∈ first, Tier pair leaves hashes height id)
    (secondTiers : ∀ id ∈ second, Tier pair leaves hashes height id)
    (firstIn : hashed pair first ⊆ hashes) (secondIn : hashed pair second ⊆ hashes)
    (distinct : first.Nodup) (same : root pair first = root pair second) :
    first = second ∨ ¬second.Nodup := by
  induction first using root.induct pair generalizing second height with
  | case1 => exact absurd rfl nonempty
  | case2 single =>
      rcases second with - | ⟨left, - | ⟨right, rest⟩⟩
      · rw [root, root] at same
        cases same
      · rw [root, root] at same
        exact .inl (congrArg (fun top => [top]) (Option.some.inj same))
      · obtain ⟨above, tier, higher⟩ :=
          Tier.root secondTiers secondIn (same.symm.trans (by rw [root]))
        have level := Tier.unique separate (firstTiers single (List.mem_singleton_self _)) tier
        have positive := higher (Nat.le_add_left _ _)
        omega
  | case3 left right rest ih =>
      rcases second with - | ⟨left', - | ⟨right', rest'⟩⟩
      · obtain ⟨top, rooted⟩ := exists_root pair nonempty
        rw [rooted, root] at same
        cases same
      · obtain ⟨above, tier, higher⟩ := Tier.root firstTiers firstIn (same.trans (by rw [root]))
        have level := Tier.unique separate (secondTiers left' (List.mem_singleton_self _)) tier
        have positive := higher (Nat.le_add_left _ _)
        omega
      · rw [hashed] at firstIn secondIn
        rw [root, root] at same
        have firstCoupled := List.append_subset.mp firstIn
        have secondCoupled := List.append_subset.mp secondIn
        rcases ih (List.cons_ne_nil _ _) (Tier.level firstTiers firstCoupled.1)
            (Tier.level secondTiers secondCoupled.1) firstCoupled.2 secondCoupled.2
            (separate.level_nodup firstCoupled.1 distinct) same with levels | again
        · exact eq_of_couples distinct
            (separate.couples_eq firstCoupled.1 secondCoupled.1 levels)
        · exact .inr fun once => again (separate.level_nodup secondCoupled.1 once)

/-- Lists with the same root are the same, or the second repeats an id, when the
first does not and the hashes of both are separate. -/
theorem eq_or_repeats {first second : List Id}
    (separate : Separate pair (first ++ second) (hashed pair first ++ hashed pair second))
    (nonempty : first ≠ []) (distinct : first.Nodup) (same : root pair first = root pair second) :
    first = second ∨ ¬second.Nodup :=
  separate.pins nonempty (fun _ member => .leaf (List.mem_append_left _ member))
    (fun _ member => .leaf (List.mem_append_right _ member)) (List.subset_append_left _ _)
    (List.subset_append_right _ _) distinct same

end Pins

end PiSecure.Merkle
