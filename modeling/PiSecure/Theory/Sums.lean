import Mathlib.Data.List.TakeWhile
import PiSecure.Model.Release

/-! # Lines of hashes

What a file of hashes lists for a member: a line of 64 hex digits, blanks, a star for a
binary file and the path of a file with the base name of the member. The reader takes the
first line of that form.
-/

namespace PiSecure

namespace Release

/-! ## The form of a line -/

/-- A line of 64 hex digits, blanks, an optional star and a path. -/
structure SumsLine (line : Bytes) where
  digits : Bytes
  blanks : Bytes
  star : Bytes
  path : Bytes
  written : chomp line = digits ++ (blanks ++ (star ++ path))
  size : digits.length = 64
  hex : ∀ byte ∈ digits, isHexByte byte = true
  ends : ∀ byte, (blanks ++ (star ++ path)).head? = some byte → isHexByte byte = false
  blank : ∀ byte ∈ blanks, isSpaceByte byte = true
  begins : ∀ byte, (star ++ path).head? = some byte → isSpaceByte byte = false
  starred : star = [42] ∨ star = [] ∧ path.head? ≠ some 42

/-- A line lists a hash for a member when it names a file of its base name. -/
def LineLists (member line hash : Bytes) : Prop :=
  ∃ parts : SumsLine line, parts.digits.map lowerByte = hash ∧
    afterSlash parts.path = afterSlash member

/-- A text lists a hash for a member on the first line that lists one. -/
def Lists (sums member hash : Bytes) : Prop :=
  ∃ before line after, sums.splitOn 10 = before ++ line :: after ∧ LineLists member line hash ∧
    ∀ earlier ∈ before, ∀ other, ¬LineLists member earlier other

/-! ## Reading a line -/

variable {member line hash : Bytes}

/-- The front of a list up to the first item that fails a test. -/
theorem takeWhile_of_head {Item : Type} {test : Item → Bool} {front back : List Item}
    (passes : ∀ item ∈ front, test item = true)
    (fails : ∀ item, back.head? = some item → test item = false) :
    (front ++ back).takeWhile test = front ∧ (front ++ back).dropWhile test = back := by
  rw [List.takeWhile_append_of_pos passes, List.dropWhile_append_of_pos passes]
  cases back with
  | nil => exact ⟨List.append_nil _, rfl⟩
  | cons item rest =>
      have stops : ¬test item = true := Bool.eq_false_iff.mp (fails item rfl)
      rw [List.takeWhile_cons_of_neg stops, List.dropWhile_cons_of_neg stops]
      exact ⟨List.append_nil _, rfl⟩

/-- What is left of a list begins with an item that fails the test. -/
theorem head_left {Item : Type} {test : Item → Bool} {items : List Item} {item : Item}
    (first : (items.dropWhile test).head? = some item) : test item = false := by
  have fails := List.head?_dropWhile_not test items
  rwa [first] at fails

/-- A line of the form is read as its parts. -/
theorem SumsLine.lineHash_eq (parts : SumsLine line) (member : Bytes) :
    lineHash member line =
      if afterSlash parts.path = afterSlash member then some (parts.digits.map lowerByte)
      else none := by
  obtain ⟨taken, left⟩ := takeWhile_of_head parts.hex parts.ends
  obtain ⟨_, named⟩ := takeWhile_of_head parts.blank parts.begins
  have path : (if (parts.star ++ parts.path).head? = some 42 ∨
      (parts.star ++ parts.path).head? = some 32 then (parts.star ++ parts.path).drop 1
      else parts.star ++ parts.path) = parts.path := by
    rcases parts.starred with star | ⟨star, plain⟩
    · rw [star]
      exact if_pos (Or.inl rfl)
    · rw [star, List.nil_append]
      refine if_neg (not_or.mpr ⟨plain, fun blank => ?_⟩)
      have begins := parts.begins 32 (by rw [star, List.nil_append, blank])
      exact absurd begins (by decide)
  have same : (afterSlash parts.path = afterSlash member ∨ parts.path = member) ↔
      afterSlash parts.path = afterSlash member :=
    or_iff_left_of_imp (congrArg afterSlash)
  rw [lineHash]
  dsimp only
  rw [parts.written, taken, left, named, path, List.length_map, parts.size,
    if_neg (not_not.mpr rfl)]
  exact if_congr same rfl rfl

/-- A line that begins with 64 hex digits is of the form. -/
theorem exists_sumsLine (long : ((chomp line).takeWhile isHexByte).length = 64) :
    ∃ parts : SumsLine line, parts.digits = (chomp line).takeWhile isHexByte := by
  obtain ⟨rest, left⟩ : ∃ rest, rest = (chomp line).dropWhile isHexByte := ⟨_, rfl⟩
  obtain ⟨name, named⟩ : ∃ name, name = rest.dropWhile isSpaceByte := ⟨_, rfl⟩
  have whole : chomp line = (chomp line).takeWhile isHexByte ++ rest := by
    rw [left, List.takeWhile_append_dropWhile]
  have blanks : rest = rest.takeWhile isSpaceByte ++ name := by
    rw [named, List.takeWhile_append_dropWhile]
  have hex : ∀ byte ∈ (chomp line).takeWhile isHexByte, isHexByte byte = true :=
    fun _ member => List.mem_takeWhile_imp member
  have blank : ∀ byte ∈ rest.takeWhile isSpaceByte, isSpaceByte byte = true :=
    fun _ member => List.mem_takeWhile_imp member
  have ends : ∀ byte, rest.head? = some byte → isHexByte byte = false := by
    intro byte first
    rw [left] at first
    exact head_left first
  have begins : ∀ byte, name.head? = some byte → isSpaceByte byte = false := by
    intro byte first
    rw [named] at first
    exact head_left first
  obtain ⟨star, path, split, starred⟩ : ∃ star path, name = star ++ path ∧
      (star = [42] ∨ star = [] ∧ path.head? ≠ some 42) := by
    cases name with
    | nil => exact ⟨[], [], rfl, Or.inr ⟨rfl, fun none => nomatch none⟩⟩
    | cons byte path =>
        by_cases marked : byte = 42
        · exact ⟨[42], path, by rw [marked]; rfl, Or.inl rfl⟩
        · exact ⟨[], byte :: path, rfl, Or.inr ⟨rfl, fun first => marked (Option.some.inj first)⟩⟩
  rw [split] at blanks begins
  exact ⟨⟨_, _, star, path, by rw [← blanks]; exact whole, long, hex, by rwa [← blanks], blank,
    begins, starred⟩, rfl⟩

/-- A hash is read from a line exactly when the line lists it. -/
theorem lineHash_eq_some_iff : lineHash member line = some hash ↔ LineLists member line hash := by
  constructor
  · intro read
    have long : ((chomp line).takeWhile isHexByte).length = 64 := by
      by_contra short
      rw [lineHash] at read
      dsimp only at read
      rw [List.length_map, if_pos short] at read
      cases read
    obtain ⟨parts, _⟩ := exists_sumsLine long
    rw [parts.lineHash_eq] at read
    split at read
    next same => exact ⟨parts, Option.some.inj read, same⟩
    next => cases read
  · rintro ⟨parts, rfl, same⟩
    rw [parts.lineHash_eq, if_pos same]

/-! ## Reading a text -/

theorem LineLists.ne_nil (lists : LineLists member line hash) : hash ≠ [] := by
  obtain ⟨parts, rfl, _⟩ := lists
  intro empty
  have size := parts.size
  rw [List.map_eq_nil_iff.mp empty] at size
  cases size

/-- **The sums.** A hash is found for a member exactly when the text lists it. -/
theorem sumsHashFor_eq_iff {sums : Bytes} :
    sumsHashFor sums member = hash ∧ hash ≠ [] ↔ Lists sums member hash := by
  have found : (sums.splitOn 10).findSome? (lineHash member) = some hash ↔
      Lists sums member hash := by
    rw [List.findSome?_eq_some_iff]
    refine exists_congr fun before => exists_congr fun line => exists_congr fun after => ?_
    refine and_congr_right fun _ => and_congr lineHash_eq_some_iff ?_
    refine forall_congr' fun earlier => forall_congr' fun _ => ?_
    rw [Option.eq_none_iff_forall_ne_some]
    exact forall_congr' fun other => not_congr lineHash_eq_some_iff
  rw [← found, sumsHashFor]
  cases read : (sums.splitOn 10).findSome? (lineHash member) with
  | none => exact iff_of_false (fun both => both.2 both.1.symm) (fun none => nomatch none)
  | some other =>
      rw [Option.getD_some, Option.some.injEq, and_iff_left_iff_imp]
      rintro rfl
      obtain ⟨line, _, listed⟩ := List.exists_of_findSome?_eq_some read
      exact (lineHash_eq_some_iff.mp listed).ne_nil

end Release

end PiSecure
