import Mathlib.Logic.Function.Iterate
import PiSecure.General.Sha256

/-! # The blocks of SHA-256

The rounds of a block as one pass over its message schedule, the schedule as words
appended one by one, and the compression of a message block after block.
-/

namespace PiSecure.Sha256

/-! ## The message schedule -/

/-- The word after sixteen words. -/
def nextWord (window : List Nat) : Nat :=
  (smallSigma1 (window.getD 14 0) + window.getD 9 0 + smallSigma0 (window.getD 1 0) +
    window.getD 0 0) % 2 ^ 32

/-- The next sixteen words. -/
def slide (window : List Nat) : List Nat := window.drop 1 ++ [nextWord window]

/-- The first words of the schedule that goes on from sixteen words. -/
def scheduleFrom : Nat → List Nat → List Nat
  | 0, _ => []
  | count + 1, window => window.getD 0 0 :: scheduleFrom count (slide window)

/-- The rounds are one pass over the constants and the schedule. -/
theorem rounds_eq_foldl (constants : List Nat) {window : List Nat} (present : window ≠ [])
    (s : State) :
    rounds constants window s =
      (constants.zip (scheduleFrom constants.length window)).foldl
        (fun s entry => round s entry.1 entry.2) s := by
  induction constants generalizing window s with
  | nil => rfl
  | cons constant constants ih =>
      cases window with
      | nil => exact absurd rfl present
      | cons word words =>
          rw [List.length_cons, scheduleFrom, List.zip_cons_cons, List.foldl_cons, rounds]
          exact ih (List.append_ne_nil_of_right_ne_nil _ (List.cons_ne_nil _ _)) _

theorem length_slide {window : List Nat} (present : window ≠ []) :
    (slide window).length = window.length := by
  have positive := List.length_pos_iff.mpr present
  rw [slide, List.length_append, List.length_drop, List.length_singleton]
  omega

@[simp] theorem length_scheduleFrom (count : ℕ) (window : List Nat) :
    (scheduleFrom count window).length = count := by
  induction count generalizing window with
  | zero => rfl
  | succ count ih => rw [scheduleFrom, List.length_cons, ih]

/-- The words of the window come first. -/
theorem scheduleFrom_window {count : ℕ} {window : List Nat} (short : count ≤ window.length) :
    scheduleFrom count window = window.take count := by
  induction count generalizing window with
  | zero => rfl
  | succ count ih =>
      cases window with
      | nil => cases short
      | cons word words =>
          rw [List.length_cons, Nat.succ_le_succ_iff] at short
          have enough : count ≤ (slide (word :: words)).length := by
            rw [length_slide (List.cons_ne_nil _ _), List.length_cons]
            omega
          rw [scheduleFrom, ih enough]
          change word :: (words ++ _).take count = word :: words.take count
          rw [List.take_append_of_le_length short]

theorem scheduleFrom_add (first second : ℕ) (window : List Nat) :
    scheduleFrom (first + second) window =
      scheduleFrom first window ++ scheduleFrom second (slide^[first] window) := by
  induction first generalizing window with
  | zero => rw [Nat.zero_add]; rfl
  | succ first ih =>
      rw [Nat.succ_add, scheduleFrom, scheduleFrom, ih, Function.iterate_succ_apply]
      rfl

/-- A schedule of which the words so far and the window after them are known. -/
theorem scheduleFrom_succ (count : ℕ) (window : List Nat) :
    scheduleFrom (count + 1) window =
      scheduleFrom count window ++ [(slide^[count] window).getD 0 0] :=
  scheduleFrom_add count 1 window

theorem length_iterate_slide (count : ℕ) {window : List Nat} (present : window ≠ []) :
    (slide^[count] window).length = window.length := by
  induction count with
  | zero => rfl
  | succ count ih =>
      have kept : slide^[count] window ≠ [] := by
        rw [← List.length_pos_iff, ih]
        exact List.length_pos_iff.mpr present
      rw [Function.iterate_succ_apply', length_slide kept, ih]

/-- The sixteen words and as many more as were appended to them. -/
def extended (count : ℕ) (window : List Nat) : List Nat :=
  scheduleFrom count window ++ slide^[count] window

theorem extended_getD (count index : ℕ) (window : List Nat) :
    (extended count window).getD (count + index) 0 = (slide^[count] window).getD index 0 := by
  rw [List.getD_eq_getElem?_getD, List.getD_eq_getElem?_getD, extended,
    List.getElem?_append_right (by rw [length_scheduleFrom]; omega), length_scheduleFrom,
    Nat.add_sub_cancel_left]

/-- Appending the next word of the window is one word more of the schedule. -/
theorem extended_succ (count : ℕ) {window : List Nat} (present : window ≠ []) :
    extended (count + 1) window = extended count window ++ [nextWord (slide^[count] window)] := by
  have kept : slide^[count] window ≠ [] := by
    rw [← List.length_pos_iff, length_iterate_slide count present]
    exact List.length_pos_iff.mpr present
  obtain ⟨word, words, split⟩ := List.exists_cons_of_ne_nil kept
  rw [extended, extended, scheduleFrom_succ, Function.iterate_succ_apply', slide, split,
    List.append_assoc, List.append_assoc]
  rfl

/-- Forty-eight words appended to sixteen are the schedule of the sixty-four rounds. -/
theorem extended_eq_schedule (count : ℕ) {window : List Nat} (present : window ≠ []) :
    extended count window = scheduleFrom (count + window.length) window := by
  have length := length_iterate_slide count present
  rw [scheduleFrom_add, scheduleFrom_window (Nat.le_of_eq length.symm), ← length,
    List.take_length]
  rfl

/-! ## Blocks -/

theorem compressBlocks_add (first second : ℕ) (message : Bytes) (s : State) :
    compressBlocks (first + second) message s =
      compressBlocks second (message.drop (64 * first)) (compressBlocks first message s) := by
  induction first generalizing message s with
  | zero => rw [Nat.zero_add]; rfl
  | succ first ih =>
      rw [Nat.succ_add, compressBlocks, compressBlocks, ih, List.drop_drop]
      congr 2
      omega

/-- Only the blocks that are compressed matter. -/
theorem compressBlocks_append (count : ℕ) {message : Bytes} (rest : Bytes) (s : State)
    (long : 64 * count ≤ message.length) :
    compressBlocks count (message ++ rest) s = compressBlocks count message s := by
  induction count generalizing message s with
  | zero => rfl
  | succ count ih =>
      rw [compressBlocks, compressBlocks, List.take_append_of_le_length (by omega),
        List.drop_append_of_le_length (by omega), ih]
      rw [List.length_drop]
      omega

end PiSecure.Sha256
