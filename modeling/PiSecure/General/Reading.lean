/-! # Readers that move an offset over a string

A reader takes fields from a string at an offset which it moves on. It has no
result when it reads past the end of the string, so a reader that ends has read
inside only.
-/

namespace PiSecure.Reading

variable {Symbol Value Next : Type}

/-- A computation that moves an offset; no result when it reads past the end. -/
abbrev Reader (Value : Type) := StateT Nat Option Value

/-- The given number of symbols at an offset. -/
def slice (data : List Symbol) (offset count : Nat) : List Symbol :=
  (data.drop offset).take count

/-- The next symbols of the string, which must all be there. -/
def take (data : List Symbol) (count : Nat) : Reader (List Symbol) := fun offset =>
  if offset + count ≤ data.length then some (slice data offset count, offset + count) else none

/-- Symbols at a fixed place, read without moving on. -/
def peek (data : List Symbol) (start count : Nat) : Reader (List Symbol) := fun offset =>
  if start + count ≤ data.length then some (slice data start count, offset) else none

/-- Moves on without reading. -/
def skip (count : Nat) : Reader Unit := fun offset => some ((), offset + count)

/-- A field of the given size, when that much is left of the string. -/
def readIf (data : List Symbol) (size : Nat) (one : Reader Value) : Reader (Option Value) :=
  fun offset =>
    if offset + size ≤ data.length then (one.run offset).map fun read => (some read.1, read.2)
    else some (none, offset)

/-- Fields of a fixed size, one after the other; given up when one is cut off or
is not a field. -/
def many (data : List Symbol) (size : Nat) (one : Reader (Option Value)) :
    Nat → Reader (Option (List Value))
  | 0 => pure (some [])
  | count + 1 => do
      match (← readIf data size one).join with
      | none => pure none
      | some first => return (← many data size one count).map (first :: ·)

/-! ## Readers that end -/

/-- From this offset the reader ends, in a value and an offset as given. -/
def Ends (reader : Reader Value) (offset : Nat) (post : Value → Nat → Prop) : Prop :=
  ∃ value next, reader.run offset = some (value, next) ∧ post value next

variable {reader : Reader Value} {offset : Nat} {post : Value → Nat → Prop}

theorem isSome_iff : (reader.run offset).isSome ↔ Ends reader offset fun _ _ => True := by
  rw [Option.isSome_iff_exists]
  constructor
  · rintro ⟨⟨value, next⟩, read⟩
    exact ⟨value, next, read, trivial⟩
  · rintro ⟨value, next, read, _⟩
    exact ⟨(value, next), read⟩

theorem Ends.mono (ends : Ends reader offset post) {weaker : Value → Nat → Prop}
    (implied : ∀ value next, post value next → weaker value next) : Ends reader offset weaker := by
  obtain ⟨value, next, read, holds⟩ := ends
  exact ⟨value, next, read, implied value next holds⟩

theorem Ends.and (ends : Ends reader offset post) {other : Value → Nat → Prop}
    (also : Ends reader offset other) :
    ∃ value next, reader.run offset = some (value, next) ∧ post value next ∧ other value next := by
  obtain ⟨value, next, read, holds⟩ := ends
  obtain ⟨_, _, again, alike⟩ := also
  rw [read] at again
  cases again
  exact ⟨value, next, read, holds, alike⟩

@[simp] theorem ends_pure {value : Value} :
    Ends (pure value : Reader Value) offset post ↔ post value offset := by
  constructor
  · rintro ⟨_, _, read, holds⟩
    cases read
    exact holds
  · intro holds
    exact ⟨value, offset, rfl, holds⟩

@[simp] theorem ends_bind {next : Value → Reader Next} {post : Next → Nat → Prop} :
    Ends (reader >>= next) offset post ↔
      Ends reader offset fun value moved => Ends (next value) moved post := by
  have run : (reader >>= next).run offset =
      (reader.run offset).bind fun read => (next read.1).run read.2 := rfl
  constructor
  · rintro ⟨value, moved, read, holds⟩
    rw [run, Option.bind_eq_some_iff] at read
    obtain ⟨⟨first, between⟩, before, after⟩ := read
    exact ⟨first, between, before, value, moved, after, holds⟩
  · rintro ⟨first, between, before, value, moved, after, holds⟩
    refine ⟨value, moved, ?_, holds⟩
    rw [run, before]
    exact after

@[simp] theorem ends_map {view : Value → Next} {post : Next → Nat → Prop} :
    Ends (view <$> reader) offset post ↔
      Ends reader offset fun value moved => post (view value) moved := by
  rw [← bind_pure_comp, ends_bind]
  simp only [ends_pure]

@[simp] theorem ends_get {post : Nat → Nat → Prop} :
    Ends (get : Reader Nat) offset post ↔ post offset offset := by
  constructor
  · rintro ⟨_, _, read, holds⟩
    cases read
    exact holds
  · intro holds
    exact ⟨offset, offset, rfl, holds⟩

@[simp] theorem ends_skip {count : Nat} {post : Unit → Nat → Prop} :
    Ends (skip count) offset post ↔ post () (offset + count) := by
  constructor
  · rintro ⟨_, _, read, holds⟩
    cases read
    exact holds
  · intro holds
    exact ⟨(), offset + count, rfl, holds⟩

@[simp] theorem ends_take {data : List Symbol} {count : Nat}
    {post : List Symbol → Nat → Prop} :
    Ends (take data count) offset post ↔
      offset + count ≤ data.length ∧ post (slice data offset count) (offset + count) := by
  by_cases inside : offset + count ≤ data.length
  · have run : (take data count).run offset =
        some (slice data offset count, offset + count) := if_pos inside
    simp only [Ends, run, Option.some.injEq, Prod.mk.injEq, inside, true_and]
    constructor
    · rintro ⟨_, _, ⟨rfl, rfl⟩, holds⟩
      exact holds
    · intro holds
      exact ⟨_, _, ⟨rfl, rfl⟩, holds⟩
  · have run : (take data count).run offset = none := if_neg inside
    simp only [Ends, run, reduceCtorEq, false_and, exists_false, inside]

@[simp] theorem ends_peek {data : List Symbol} {start count : Nat}
    {post : List Symbol → Nat → Prop} :
    Ends (peek data start count) offset post ↔
      start + count ≤ data.length ∧ post (slice data start count) offset := by
  by_cases inside : start + count ≤ data.length
  · have run : (peek data start count).run offset = some (slice data start count, offset) :=
      if_pos inside
    simp only [Ends, run, Option.some.injEq, Prod.mk.injEq, inside, true_and]
    constructor
    · rintro ⟨_, _, ⟨rfl, rfl⟩, holds⟩
      exact holds
    · intro holds
      exact ⟨_, _, ⟨rfl, rfl⟩, holds⟩
  · have run : (peek data start count).run offset = none := if_neg inside
    simp only [Ends, run, reduceCtorEq, false_and, exists_false, inside]

@[simp] theorem ends_readIf {data : List Symbol} {size : Nat}
    {post : Option Value → Nat → Prop} :
    Ends (readIf data size reader) offset post ↔
      if offset + size ≤ data.length then
        Ends reader offset fun value moved => post (some value) moved
      else post none offset := by
  by_cases inside : offset + size ≤ data.length
  · have run : (readIf data size reader).run offset =
        (reader.run offset).map fun read => (some read.1, read.2) := if_pos inside
    rw [if_pos inside, Ends, run]
    constructor
    · rintro ⟨value, moved, read, holds⟩
      obtain ⟨⟨field, next⟩, before, same⟩ := Option.map_eq_some_iff.mp read
      cases same
      exact ⟨field, next, before, holds⟩
    · rintro ⟨field, next, before, holds⟩
      exact ⟨some field, next, by rw [before]; rfl, holds⟩
  · have run : (readIf data size reader).run offset = some (none, offset) := if_neg inside
    rw [if_neg inside, Ends, run]
    constructor
    · rintro ⟨value, moved, read, holds⟩
      cases read
      exact holds
    · intro holds
      exact ⟨none, offset, rfl, holds⟩

/-- Fields that end where their size says leave the rest of the string alone. -/
theorem ends_many {data : List Symbol} {size : Nat} {one : Reader (Option Value)}
    (fixed : ∀ offset, offset + size ≤ data.length →
      Ends one offset fun _ moved => moved ≤ data.length)
    (count : Nat) {offset : Nat} (inside : offset ≤ data.length) :
    Ends (many data size one count) offset fun _ moved => moved ≤ data.length := by
  induction count generalizing offset with
  | zero => exact ends_pure.mpr inside
  | succ count ih =>
      rw [many, ends_bind, ends_readIf]
      split
      next fits =>
        refine (fixed offset fits).mono ?_
        intro value moved bound
        cases value with
        | none => exact ends_pure.mpr bound
        | some first =>
            refine ends_bind.mpr ((ih bound).mono ?_)
            intro rest ended final
            exact ends_pure.mpr final
      · exact ends_pure.mpr inside

/-! ## Readers of an encoding -/

/-- Exactly `rest` is left of a string at an offset. -/
structure At (data : List Symbol) (offset : Nat) (rest : List Symbol) : Prop where
  inside : offset ≤ data.length
  left : data.drop offset = rest

variable {data code rest : List Symbol}

theorem At.start (data : List Symbol) : At data 0 data := ⟨Nat.zero_le _, rfl⟩

theorem At.length (place : At data offset rest) : offset + rest.length = data.length := by
  have inside := place.inside
  rw [← place.left, List.length_drop]
  omega

theorem At.next {symbol : Symbol} (place : At data offset (symbol :: rest)) :
    At data (offset + 1) rest ∧ slice data offset 1 = [symbol] := by
  have inside := place.inside
  have length : (symbol :: rest).length = data.length - offset := by
    rw [← place.left, List.length_drop]
  rw [List.length_cons] at length
  refine ⟨⟨by omega, ?_⟩, ?_⟩
  · rw [← List.drop_drop, place.left, List.drop_one, List.tail_cons]
  · rw [slice, place.left, List.take_succ_cons, List.take_zero]

theorem At.move (place : At data offset (code ++ rest)) :
    At data (offset + code.length) rest := by
  have length := place.length
  rw [List.length_append] at length
  refine ⟨by omega, ?_⟩
  rw [← List.drop_drop, place.left, List.drop_left]

theorem At.slice (place : At data offset (code ++ rest)) :
    slice data offset code.length = code := by
  rw [Reading.slice, place.left, List.take_left]

theorem At.fits (place : At data offset (code ++ rest)) :
    offset + code.length ≤ data.length := place.move.inside

/-- Where the code of a value is next, the reader reads the value and moves on
past the code. -/
structure Reads (data : List Symbol) (reader : Reader Value) (value : Value)
    (code : List Symbol) : Prop where
  run : ∀ {offset : Nat} {rest : List Symbol}, At data offset (code ++ rest) →
    reader.run offset = some (value, offset + code.length)

variable {value : Value} {decoded : Next} {further : List Symbol}

theorem Reads.pure : Reads data (Pure.pure value : Reader Value) value [] := ⟨fun _ => rfl⟩

theorem Reads.bind {next : Value → Reader Next} (reads : Reads data reader value code)
    (after : Reads data (next value) decoded further) :
    Reads data (reader >>= next) decoded (code ++ further) := by
  refine ⟨?_⟩
  intro offset rest place
  rw [List.append_assoc] at place
  have before := reads.run place
  have later := after.run place.move
  have run : (reader >>= next).run offset =
      (reader.run offset).bind fun read => (next read.1).run read.2 := rfl
  rw [run, before, List.length_append, ← Nat.add_assoc]
  exact later

theorem Reads.map (view : Value → Next) (reads : Reads data reader value code) :
    Reads data (view <$> reader) (view value) code := by
  refine ⟨?_⟩
  intro offset rest place
  have run : (view <$> reader).run offset =
      (reader.run offset).map fun read => (view read.1, read.2) := by
    rw [StateT.run_map]
    cases reader.run offset <;> rfl
  rw [run, reads.run place]
  rfl

/-- The last step of a reader, which only computes. -/
theorem Reads.andPure {next : Value → Reader Next} (reads : Reads data reader value code)
    (computed : next value = Pure.pure decoded) : Reads data (reader >>= next) decoded code := by
  have both : Reads data (reader >>= next) decoded (code ++ []) :=
    reads.bind (computed ▸ Reads.pure)
  rwa [List.append_nil] at both

theorem reads_take (data code : List Symbol) : Reads data (take data code.length) code code := by
  refine ⟨?_⟩
  intro offset rest place
  have run : (take data code.length).run offset =
      some (slice data offset code.length, offset + code.length) := if_pos place.fits
  rw [run, place.slice]

theorem reads_skip (data code : List Symbol) : Reads data (skip code.length) () code :=
  ⟨fun _ => rfl⟩

theorem Reads.ofIf (reads : Reads data reader value code) :
    Reads data (readIf data code.length reader) (some value) code := by
  refine ⟨?_⟩
  intro offset rest place
  have run : (readIf data code.length reader).run offset =
      (reader.run offset).map fun read => (some read.1, read.2) := if_pos place.fits
  rw [run, reads.run place]
  rfl

theorem reads_of_ends (ends : ∀ {offset : Nat} {rest : List Symbol}, At data offset (code ++ rest) →
    Ends reader offset fun read moved => read = value ∧ moved = offset + code.length) :
    Reads data reader value code := by
  refine ⟨?_⟩
  intro offset rest place
  obtain ⟨read, moved, run, rfl, rfl⟩ := ends place
  exact run

theorem Reads.ends (reads : Reads data reader value code) (place : At data offset (code ++ rest)) :
    Ends reader offset post ↔ post value (offset + code.length) := by
  simp only [Ends, reads.run place, Option.some.injEq, Prod.mk.injEq]
  constructor
  · rintro ⟨_, _, ⟨rfl, rfl⟩, holds⟩
    exact holds
  · intro holds
    exact ⟨_, _, ⟨rfl, rfl⟩, holds⟩

/-- Reading as many fields as were written, where a field shows a view of the
value that was written. -/
theorem Reads.many {size : Nat} {one : Reader (Option Next)} {view : Value → Next}
    {encode : Value → List Symbol} (values : List Value)
    (sized : ∀ value ∈ values, (encode value).length = size)
    (reads : ∀ value ∈ values, Reads data one (some (view value)) (encode value)) :
    Reads data (many data size one values.length) (some (values.map view))
      (values.flatMap encode) := by
  induction values with
  | nil => exact Reads.pure
  | cons first others ih =>
      rw [List.forall_mem_cons] at sized reads
      have field := reads.1.ofIf
      rw [sized.1] at field
      have later := ih sized.2 reads.2
      rw [List.flatMap_cons]
      exact field.bind (later.andPure rfl)

end PiSecure.Reading
