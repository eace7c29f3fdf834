import Mathlib.Data.List.Nodup
import Mathlib.Data.List.Perm.Basic
import Mathlib.Algebra.BigOperators.Group.List.Basic
import PiSecure.General.Json

/-! # Sizes of dumped documents

Lower bounds: a document is at least as long as what it contains.
-/

namespace PiSecure

namespace Json

private theorem utf8Size_le_escapeChar (c : Char) : c.utf8Size ≤ Text.size (escapeChar c) := by
  have ascii : ∀ {d : Char}, d.toNat < 128 → d.utf8Size = 1 := by
    intro d below
    have bound : d.val.toNat ≤ 127 := Nat.le_of_lt_succ below
    exact if_pos (UInt32.le_iff_toNat_le.mpr bound)
  have positive : ∀ (d : Char) (rest : Text), 1 ≤ Text.size (d :: rest) := by
    intro d rest
    have one := d.utf8Size_pos
    rw [Text.size_cons]
    omega
  unfold escapeChar
  split
  next same => subst same; exact positive _ _
  · split
    next same => subst same; exact positive _ _
    · split
      next low => rw [ascii (by omega)]; exact positive _ _
      · split
        next low => rw [ascii (by omega)]; exact positive _ _
        · split
          next low => rw [ascii (by omega)]; exact positive _ _
          · split
            next low => rw [ascii (by omega)]; exact positive _ _
            · split
              next low => rw [ascii (by omega)]; exact positive _ _
              · split
                next low => rw [ascii (by omega)]; exact positive _ _
                · rw [Text.size_cons]
                  exact Nat.le_add_right _ _

/-- A dumped string is its text at least, with two quotes. -/
theorem size_quote (text : Text) : Text.size text + 2 ≤ Text.size (quote text) := by
  have escaped : Text.size text ≤ Text.size (text.flatMap escapeChar) := by
    induction text with
    | nil => exact Nat.le_refl _
    | cons c rest ih =>
        rw [List.flatMap_cons, Text.size_append, Text.size_cons]
        exact Nat.add_le_add (utf8Size_le_escapeChar c) ih
  have quotes : Text.size ['"'] = 1 := rfl
  have first : '"'.utf8Size = 1 := rfl
  rw [quote, Text.size_cons, Text.size_append, quotes, first]
  omega

theorem dumpSize_string (text : Text) : Text.size text + 2 ≤ (string text).dumpSize := by
  rw [dumpSize, dump]
  exact size_quote text

theorem dumpSize_unsigned (value : UInt64) : 1 ≤ (unsigned value).dumpSize := by
  rw [dumpSize, dump]
  refine Nat.le_trans ?_ (Text.length_le_size _)
  exact Nat.length_toDigits_pos

/-- The items of an array, with a comma between any two. -/
theorem dumpSize_array (items : List Json) :
    (items.map dumpSize).sum + items.length + 1 ≤ (array items).dumpSize := by
  have inner : (items.map dumpSize).sum + items.length ≤ Text.size (dumpItems items) + 1 := by
    induction items with
    | nil => exact Nat.zero_le _
    | cons item rest ih =>
        cases rest with
        | nil =>
            rw [dumpItems, List.map_singleton, List.sum_singleton, List.length_singleton]
            exact Nat.le_refl _
        | cons next others =>
            have comma : ','.utf8Size = 1 := rfl
            rw [dumpItems, Text.size_append, Text.size_cons, comma, List.map_cons, List.sum_cons,
              List.length_cons]
            change dumpSize item + _ + _ ≤ dumpSize item + _ + 1
            omega
  have brackets : '['.utf8Size = 1 := rfl
  have closing : Text.size [']'] = 1 := rfl
  rw [dumpSize, dump, Text.size_cons, Text.size_append, brackets, closing]
  omega

/-- The bytes that a member takes. -/
def memberSize (key : String) (value : Json) : Nat := Text.size key.toList + 3 + value.dumpSize

private theorem size_dumpMembers (members : List (String × Json)) :
    (members.map fun member => memberSize member.1 member.2).sum ≤
      Text.size (dumpMembers members) := by
  have colon : ':'.utf8Size = 1 := rfl
  have comma : ','.utf8Size = 1 := rfl
  induction members with
  | nil => exact Nat.zero_le _
  | cons member rest ih =>
      obtain ⟨key, value⟩ := member
      have quoted := size_quote key.toList
      cases rest with
      | nil =>
          rw [dumpMembers, Text.size_append, Text.size_cons, colon]
          change memberSize key value + 0 ≤ _ + (1 + dumpSize value)
          rw [memberSize]
          omega
      | cons next others =>
          rw [dumpMembers, Text.size_append, Text.size_cons, Text.size_append, Text.size_cons,
            colon, comma, List.map_cons, List.sum_cons]
          change memberSize key value + _ ≤ _ + (1 + (dumpSize value + _))
          rw [memberSize]
          omega

private theorem sum_lookup_le {members measured : List (String × Json)}
    (distinct : (measured.map Prod.fst).Nodup)
    (found : ∀ member ∈ measured, lookup member.1 members = some member.2) :
    (measured.map fun member => memberSize member.1 member.2).sum ≤
      (members.map fun member => memberSize member.1 member.2).sum := by
  induction members generalizing measured with
  | nil =>
      cases measured with
      | nil => exact Nat.zero_le _
      | cons member rest => exact absurd (found member List.mem_cons_self) (by simp [lookup])
  | cons first rest ih =>
      obtain ⟨name, value⟩ := first
      rw [List.map_cons, List.sum_cons]
      have skip : ∀ member : String × Json, member.1 ≠ name →
          lookup member.1 ((name, value) :: rest) = some member.2 →
          lookup member.1 rest = some member.2 := by
        intro member other whole
        rwa [lookup, if_neg (Ne.symm other)] at whole
      by_cases asked : name ∈ measured.map Prod.fst
      · obtain ⟨⟨key, other⟩, member, rfl⟩ := List.mem_map.mp asked
        have here : value = other := by
          have head := found _ member
          rw [lookup, if_pos rfl] at head
          exact Option.some.inj head
        subst here
        obtain ⟨before, after, rfl⟩ := List.append_of_mem member
        rw [List.map_append, List.map_cons, List.nodup_middle, List.nodup_cons,
          ← List.map_append] at distinct
        have tail := ih distinct.2 fun inner listed => by
          refine skip inner (fun same => distinct.1 (same ▸ List.mem_map_of_mem listed))
            (found inner ?_)
          rcases List.mem_append.mp listed with front | back
          · exact List.mem_append_left _ front
          · exact List.mem_append_right _ (List.mem_cons_of_mem _ back)
        rw [List.map_append, List.sum_append] at tail
        rw [List.map_append, List.map_cons, List.sum_append, List.sum_cons]
        dsimp only at tail ⊢
        omega
      · have tail := ih distinct fun inner listed =>
          skip inner (fun same => asked (same ▸ List.mem_map_of_mem listed)) (found inner listed)
        exact Nat.le_trans tail (Nat.le_add_left _ _)

/-- A document is at least as long as its members under distinct keys. -/
theorem sum_memberSize_le {doc : Json} (measured : List (String × Json)) (isObject : doc.isObject)
    (distinct : (measured.map Prod.fst).Nodup)
    (found : ∀ member ∈ measured, doc.get? member.1 = some member.2) :
    (measured.map fun member => memberSize member.1 member.2).sum + 2 ≤ doc.dumpSize := by
  cases doc with
  | object members =>
      have inside := Nat.le_trans (sum_lookup_le distinct found) (size_dumpMembers members)
      have opening : '\x7b'.utf8Size = 1 := rfl
      have closing : Text.size ['\x7d'] = 1 := rfl
      rw [dumpSize, dump, Text.size_cons, Text.size_append]
      change _ ≤ '\x7b'.utf8Size + (_ + Text.size ['\x7d'])
      omega
  | _ => cases isObject

/-- A document is longer than each of its members. -/
theorem dumpSize_lt_of_get? {doc value : Json} {key : String} (found : doc.get? key = some value) :
    value.dumpSize < doc.dumpSize := by
  have whole := sum_memberSize_le [(key, value)] (isObject_of_get? found)
    (List.nodup_singleton key) fun member listed => List.mem_singleton.mp listed ▸ found
  rw [List.map_singleton, List.sum_singleton, memberSize] at whole
  dsimp only at whole
  omega

end Json

end PiSecure
