import Mathlib.Data.List.Induction

/-! # Self-delimiting encodings

An encoding of valid values is self-delimiting when its end can be told from the
front of any string that starts with it. Fields of a fixed length are, and so
are pairs, lists of a known or a written length, and texts with their length in
front.
-/

namespace PiSecure.Framing

variable {First Second Symbol : Type}

/-- Equal strings that start with encodings of valid values start with the same
value, and go on in the same way. -/
structure Delimits (encode : First → List Symbol) (valid : First → Prop) : Prop where
  read : ∀ {first second : First} {rest more : List Symbol}, valid first → valid second →
    encode first ++ rest = encode second ++ more → first = second ∧ rest = more

variable {encode : First → List Symbol} {valid : First → Prop}

theorem Delimits.mono (delimits : Delimits encode valid) {narrower : First → Prop}
    (implied : ∀ value, narrower value → valid value) : Delimits encode narrower :=
  ⟨fun firstValid secondValid => delimits.read (implied _ firstValid) (implied _ secondValid)⟩

/-- Encodings of one length that differ for different values. -/
theorem Delimits.of_length (length : Nat)
    (sized : ∀ {value}, valid value → (encode value).length = length)
    (injective : ∀ {first second}, valid first → valid second → encode first = encode second →
      first = second) : Delimits encode valid := by
  refine ⟨?_⟩
  intro first second rest more firstValid secondValid same
  obtain ⟨head, tail⟩ := List.append_inj same ((sized firstValid).trans (sized secondValid).symm)
  exact ⟨injective firstValid secondValid head, tail⟩

/-- A value and another one after it, whose encoding may depend on the first. -/
theorem Delimits.andThen (delimits : Delimits encode valid)
    {encodeNext : First → Second → List Symbol} {validNext : First → Second → Prop}
    (next : ∀ value, valid value → Delimits (encodeNext value) (validNext value)) :
    Delimits (fun pair : First × Second => encode pair.1 ++ encodeNext pair.1 pair.2)
      fun pair => valid pair.1 ∧ validNext pair.1 pair.2 := by
  refine ⟨?_⟩
  rintro ⟨first, second⟩ ⟨other, another⟩ rest more ⟨firstValid, secondValid⟩
    ⟨otherValid, anotherValid⟩ same
  rw [List.append_assoc, List.append_assoc] at same
  obtain ⟨rfl, tail⟩ := delimits.read firstValid otherValid same
  obtain ⟨rfl, ended⟩ := (next first firstValid).read secondValid anotherValid tail
  exact ⟨rfl, ended⟩

/-- Values of one type that are encoded through values of another. -/
theorem Delimits.comap (delimits : Delimits encode valid) (view : Second → First)
    (injective : Function.Injective view) :
    Delimits (fun value => encode (view value)) fun value => valid (view value) := by
  refine ⟨?_⟩
  intro first second rest more firstValid secondValid same
  obtain ⟨viewed, tail⟩ := delimits.read firstValid secondValid same
  exact ⟨injective viewed, tail⟩

/-- Lists of the same length, item after item. -/
theorem Delimits.items (delimits : Delimits encode valid) {first second : List First}
    {rest more : List Symbol} (length : first.length = second.length)
    (firstValid : ∀ item ∈ first, valid item) (secondValid : ∀ item ∈ second, valid item)
    (same : first.flatMap encode ++ rest = second.flatMap encode ++ more) :
    first = second ∧ rest = more := by
  induction first generalizing second with
  | nil =>
      rw [List.length_nil, eq_comm, List.length_eq_zero_iff] at length
      subst length
      exact ⟨rfl, same⟩
  | cons item items ih =>
      cases second with
      | nil => cases length
      | cons other others =>
          rw [List.forall_mem_cons] at firstValid secondValid
          rw [List.flatMap_cons, List.flatMap_cons, List.append_assoc, List.append_assoc] at same
          obtain ⟨rfl, tail⟩ := delimits.read firstValid.1 secondValid.1 same
          obtain ⟨rfl, ended⟩ := ih (Nat.succ.inj length) firstValid.2 secondValid.2 tail
          exact ⟨rfl, ended⟩

/-- Lists with their length in front. -/
theorem Delimits.counted (delimits : Delimits encode valid) {count : Nat → List Symbol}
    {bound : Nat → Prop} (counts : Delimits count bound) :
    Delimits (fun items : List First => count items.length ++ items.flatMap encode)
      fun items => bound items.length ∧ ∀ item ∈ items, valid item := by
  refine ⟨?_⟩
  intro first second rest more ⟨firstBound, firstValid⟩ ⟨secondBound, secondValid⟩ same
  rw [List.append_assoc, List.append_assoc] at same
  obtain ⟨length, tail⟩ := counts.read firstBound secondBound same
  exact delimits.items length firstValid secondValid tail

/-- Strings with their length in front. -/
theorem delimits_sized {count : Nat → List Symbol} {bound : Nat → Prop}
    (counts : Delimits count bound) :
    Delimits (fun text : List Symbol => count text.length ++ text)
      fun text => bound text.length := by
  refine ⟨?_⟩
  intro first second rest more firstBound secondBound same
  rw [List.append_assoc, List.append_assoc] at same
  obtain ⟨length, tail⟩ := counts.read firstBound secondBound same
  exact List.append_inj tail length

end PiSecure.Framing
