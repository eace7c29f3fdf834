import PiSecure.General.Json

/-! # Decimal digits

The number that decimal digits stand for: its bound, its order, its trailing
zeros, and the digits of a number padded with zeros to a width.
-/

namespace PiSecure

theorem digit_value {c : Char} (digit : c.isDigit = true) : 48 ≤ c.toNat ∧ c.toNat ≤ 57 := by
  rw [Char.isDigit, Bool.and_eq_true, decide_eq_true_eq, decide_eq_true_eq] at digit
  exact digit

theorem ofDigitChars_cons_eq (c : Char) (digits : Text) :
    Nat.ofDigitChars 10 (c :: digits) 0 =
      10 ^ digits.length * (c.toNat - 48) + Nat.ofDigitChars 10 digits 0 := by
  have zero : '0'.toNat = 48 := rfl
  rw [Nat.ofDigitChars_cons, Nat.ofDigitChars_eq_ofDigitChars_zero, Nat.mul_zero, Nat.zero_add,
    zero]

/-- The number that digits stand for takes no more places than they are. -/
theorem ofDigitChars_lt {digits : Text} (valid : ∀ c ∈ digits, c.isDigit = true) :
    Nat.ofDigitChars 10 digits 0 < 10 ^ digits.length := by
  induction digits with
  | nil => exact Nat.one_pos
  | cons c digits ih =>
      rw [List.forall_mem_cons] at valid
      have below := ih valid.2
      have value := digit_value valid.1
      have digit : c.toNat - 48 ≤ 9 := by omega
      have scaled := Nat.mul_le_mul_left (10 ^ digits.length) digit
      rw [ofDigitChars_cons_eq, List.length_cons, Nat.pow_succ]
      omega

/-- Of digits of one length the later ones stand for the larger number. -/
theorem ofDigitChars_lt_of_lt {first second ending : Text} (length : first.length = second.length)
    (firstDigits : ∀ c ∈ first, c.isDigit = true) (secondDigits : ∀ c ∈ second, c.isDigit = true)
    (before : first ++ ending < second ++ ending) :
    Nat.ofDigitChars 10 first 0 < Nat.ofDigitChars 10 second 0 := by
  induction first generalizing second with
  | nil =>
      rw [List.length_nil, eq_comm, List.length_eq_zero_iff] at length
      subst length
      exact absurd before (List.lt_irrefl ending)
  | cons c first ih =>
      cases second with
      | nil => cases length
      | cons d second =>
          rw [List.forall_mem_cons] at firstDigits secondDigits
          have low := digit_value firstDigits.1
          have tail := ofDigitChars_lt firstDigits.2
          have lengths : first.length = second.length := Nat.succ.inj length
          rw [List.cons_append, List.cons_append, List.cons_lt_cons_iff] at before
          rw [ofDigitChars_cons_eq, ofDigitChars_cons_eq, ← lengths]
          obtain smaller | ⟨rfl, later⟩ := before
          · have order : c.toNat < d.toNat := smaller
            have digit : c.toNat - 48 + 1 ≤ d.toNat - 48 := by omega
            have scaled := Nat.mul_le_mul_left (10 ^ first.length) digit
            rw [Nat.mul_add, Nat.mul_one] at scaled
            omega
          · have rest := ih lengths firstDigits.2 secondDigits.2 later
            omega

/-- Digits take one byte each. -/
theorem size_of_digits {digits : Text} (valid : ∀ c ∈ digits, c.isDigit = true) :
    Text.size digits = digits.length := by
  induction digits with
  | nil => rfl
  | cons c digits ih =>
      rw [List.forall_mem_cons] at valid
      have value := digit_value valid.1
      have single : c.utf8Size = 1 := if_pos (UInt32.le_iff_toNat_le.mpr (by
        change c.toNat ≤ 127
        omega))
      rw [Text.size_cons, List.length_cons, single, ih valid.2]
      exact Nat.add_comm _ _

/-- A number that powers of ten divide ends in as many zeros. -/
theorem eq_zero_of_mem_trailing {digits : Text} (valid : ∀ c ∈ digits, c.isDigit = true)
    {count : ℕ} (divides : Nat.ofDigitChars 10 digits 0 % 10 ^ count = 0) :
    ∀ c ∈ digits.reverse.take count, c = '0' := by
  induction count generalizing digits with
  | zero =>
      intro c listed
      cases listed
  | succ count ih =>
      induction digits using List.reverseRecOn with
      | nil =>
          intro c listed
          cases listed
      | append_singleton front last _ =>
          have lastDigit := digit_value
            (valid last (List.mem_append_right _ (List.mem_singleton_self last)))
          have value : Nat.ofDigitChars 10 (front ++ [last]) 0 =
              10 * Nat.ofDigitChars 10 front 0 + (last.toNat - 48) := by
            rw [Nat.ofDigitChars_append, Nat.ofDigitChars_cons, Nat.ofDigitChars_nil]
            rfl
          rw [value, Nat.pow_succ, Nat.mul_comm (10 ^ count) 10, Nat.mod_mul] at divides
          have none : last.toNat = 48 := by omega
          have shifted : (10 * Nat.ofDigitChars 10 front 0 + (last.toNat - 48)) / 10 =
              Nat.ofDigitChars 10 front 0 := by omega
          rw [shifted] at divides
          have above := ih (fun c listed => valid c (List.mem_append_left _ listed)) (by omega)
          rw [List.reverse_append, List.reverse_singleton, List.singleton_append,
            List.take_succ_cons]
          intro c listed
          rcases List.mem_cons.mp listed with rfl | earlier
          · exact Char.toNat_inj.mp none
          · exact above c earlier

end PiSecure
