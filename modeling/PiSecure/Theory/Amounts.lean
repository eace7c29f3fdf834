import Mathlib.Data.List.TakeWhile
import PiSecure.General.Decimal
import PiSecure.Theory.Wallet

/-! # Exact amounts

The amount parser accepts the decimal texts with at most six places whose value
in pi fits a word and is not zero, and gives that value. So the printed amount is
read back, and the wallet and the node read one text alike.
-/

namespace PiSecure

/-- The number of these digits. -/
def digitsValue (digits : Text) : ℕ := Nat.ofDigitChars 10 digits 0

/-- A decimal amount, and its value in millionths. -/
inductive AmountText : Text → ℕ → Prop
  | whole {digits : Text} (present : digits ≠ []) (valid : ∀ c ∈ digits, c.isDigit = true) :
      AmountText digits (digitsValue digits * 1000000)
  | fraction {whole frac : Text} (wholePresent : whole ≠ []) (fracPresent : frac ≠ [])
      (wholeValid : ∀ c ∈ whole, c.isDigit = true) (fracValid : ∀ c ∈ frac, c.isDigit = true)
      (places : frac.length ≤ 6) :
      AmountText (whole ++ '.' :: frac)
        (digitsValue whole * 1000000 + digitsValue frac * 10 ^ (6 - frac.length))

/-! ## The guards -/

/-- A number as a word, when it fits. -/
def fitWord (number : ℕ) : Option UInt64 :=
  if number < 2 ^ 64 then some (UInt64.ofNat number) else none

theorem fitWord_eq_some {number : ℕ} {word : UInt64} :
    fitWord number = some word ↔ word.toNat = number := by
  unfold fitWord
  split
  next fits =>
    rw [Option.some.injEq, ← UInt64.toNat_inj, UInt64.toNat_ofNat_of_lt' fits, eq_comm]
  next large =>
    refine ⟨fun wrong => (nomatch wrong), fun same => absurd ?_ large⟩
    rw [← same]
    exact word.toNat_lt

theorem uint64Max_eq : uint64Max.toNat = 2 ^ 64 - 1 := rfl

/-- The guard of the digit loop fires exactly when the next number does not fit. -/
theorem digit_guard {out digit : UInt64} (single : digit.toNat ≤ 9) :
    out > (uint64Max - digit) / 10 ↔ 2 ^ 64 ≤ out.toNat * 10 + digit.toNat := by
  have below : digit ≤ uint64Max := UInt64.le_iff_toNat_le.mpr (by rw [uint64Max_eq]; omega)
  have ten : (10 : UInt64).toNat = 10 := rfl
  rw [gt_iff_lt, UInt64.lt_iff_toNat_lt, UInt64.toNat_div, UInt64.toNat_sub_of_le _ _ below,
    uint64Max_eq, ten]
  omega

theorem digit_word {c : Char} (digit : c.isDigit = true) :
    (UInt64.ofNat (c.toNat - '0'.toNat)).toNat = c.toNat - '0'.toNat ∧
      c.toNat - '0'.toNat ≤ 9 := by
  have value := digit_value digit
  have zero : '0'.toNat = 48 := rfl
  rw [zero]
  exact ⟨UInt64.toNat_ofNat_of_lt' (by change c.toNat - 48 < 2 ^ 64; omega), by omega⟩

theorem le_ofDigitChars (digits : Text) (start : ℕ) : start ≤ Nat.ofDigitChars 10 digits start := by
  rw [Nat.ofDigitChars_eq_ofDigitChars_zero]
  have scaled : start ≤ 10 ^ digits.length * start :=
    Nat.le_mul_of_pos_left start (Nat.pow_pos (by decide))
  omega

/-- The digit loop gives the number of the digits, when it fits. -/
theorem accumulate_eq {digits : Text} (valid : ∀ c ∈ digits, c.isDigit = true) (out : UInt64) :
    accumulate digits out = fitWord (Nat.ofDigitChars 10 digits out.toNat) := by
  induction digits generalizing out with
  | nil => exact (fitWord_eq_some.mpr (by rw [Nat.ofDigitChars_nil])).symm
  | cons c digits ih =>
      rw [List.forall_mem_cons] at valid
      obtain ⟨word, single⟩ := digit_word valid.1
      rw [accumulate, Nat.ofDigitChars_cons]
      simp only [digit_guard (word.symm ▸ single), word]
      split
      next large =>
        refine (if_neg fun fits => ?_).symm
        have grows := le_ofDigitChars digits (10 * out.toNat + (c.toNat - '0'.toNat))
        omega
      next fits =>
        have next : (out * 10 + UInt64.ofNat (c.toNat - '0'.toNat)).toNat =
            10 * out.toNat + (c.toNat - '0'.toNat) := by
          rw [UInt64.toNat_add, UInt64.toNat_mul, word]
          change (out.toNat * 10 % 2 ^ 64 + (c.toNat - '0'.toNat)) % 2 ^ 64 = _
          omega
        rw [ih valid.2, next]

theorem scaleFraction_eq (missing : ℕ) (value : UInt64) :
    scaleFraction missing value = fitWord (value.toNat * 10 ^ missing) := by
  induction missing generalizing value with
  | zero => exact (fitWord_eq_some.mpr (by rw [Nat.pow_zero, Nat.mul_one])).symm
  | succ missing ih =>
      have ten : (10 : UInt64).toNat = 10 := rfl
      rw [scaleFraction, Nat.pow_succ]
      simp only [gt_iff_lt, UInt64.lt_iff_toNat_lt, UInt64.toNat_div, uint64Max_eq, ten]
      split
      next large =>
        refine (if_neg fun fits => ?_).symm
        have grows : value.toNat * 10 ≤ value.toNat * (10 ^ missing * 10) :=
          Nat.mul_le_mul_left _ (Nat.le_mul_of_pos_left 10 (Nat.pow_pos (by decide)))
        omega
      next fits =>
        have next : (value * 10).toNat = value.toNat * 10 := by
          rw [UInt64.toNat_mul]
          exact Nat.mod_eq_of_lt (by rw [ten]; omega)
        rw [ih, next, Nat.mul_assoc, Nat.mul_comm 10]

/-! ## The parser -/

/-- What the parser does with the two parts of a well-formed text. -/
def parseParts (whole frac : Text) : Except String UInt64 :=
  match accumulate whole 0 with
  | none => .error "amount overflow"
  | some wholeValue =>
      match (accumulate frac 0).bind (scaleFraction (6 - Text.size frac)) with
      | none => .error "amount overflow"
      | some fracValue =>
          if wholeValue > uint64Max / piPer314ST then .error "amount overflow"
          else
            let scaled := wholeValue * piPer314ST
            if scaled > uint64Max - fracValue then .error "amount overflow"
            else if scaled + fracValue = 0 then .error "amount must be greater than 0"
            else .ok (scaled + fracValue)

/-- A fraction of at most six places is read, and is less than one. -/
theorem fraction_eq {frac : Text} (valid : ∀ c ∈ frac, c.isDigit = true)
    (places : frac.length ≤ 6) :
    ∃ value : UInt64, (accumulate frac 0).bind (scaleFraction (6 - Text.size frac)) = some value ∧
      value.toNat = digitsValue frac * 10 ^ (6 - frac.length) ∧ value.toNat < 1000000 := by
  have small : digitsValue frac < 10 ^ frac.length := ofDigitChars_lt valid
  have shorter : 10 ^ frac.length ≤ 10 ^ 6 := Nat.pow_le_pow_right (by decide) places
  have whole : 10 ^ frac.length * 10 ^ (6 - frac.length) = 1000000 := by
    rw [← Nat.pow_add, Nat.add_sub_cancel' places]
  have scaled : digitsValue frac * 10 ^ (6 - frac.length) < 1000000 := by
    rw [← whole]
    exact Nat.mul_lt_mul_of_pos_right small (Nat.pow_pos (by decide))
  have read : accumulate frac 0 = some (UInt64.ofNat (digitsValue frac)) := by
    rw [accumulate_eq valid]
    exact if_pos (by change digitsValue frac < _; omega)
  have word : (UInt64.ofNat (digitsValue frac)).toNat = digitsValue frac :=
    UInt64.toNat_ofNat_of_lt' (by change digitsValue frac < 2 ^ 64; omega)
  have stored : (UInt64.ofNat (digitsValue frac * 10 ^ (6 - frac.length))).toNat =
      digitsValue frac * 10 ^ (6 - frac.length) :=
    UInt64.toNat_ofNat_of_lt' (by change _ < 2 ^ 64; omega)
  refine ⟨UInt64.ofNat (digitsValue frac * 10 ^ (6 - frac.length)), ?_, stored, by omega⟩
  rw [read, Option.bind_some, size_of_digits valid, scaleFraction_eq, word]
  exact if_pos (by omega)

theorem parseParts_eq_ok {whole frac : Text} (wholeValid : ∀ c ∈ whole, c.isDigit = true)
    (fracValid : ∀ c ∈ frac, c.isDigit = true) (places : frac.length ≤ 6) {pi : UInt64} :
    parseParts whole frac = .ok pi ↔
      pi.toNat = digitsValue whole * 1000000 + digitsValue frac * 10 ^ (6 - frac.length) ∧
        pi ≠ 0 := by
  obtain ⟨fracValue, fracRead, fracExact, fracSmall⟩ := fraction_eq fracValid places
  have bound := pi.toNat_lt
  have million : piPer314ST.toNat = 1000000 := rfl
  have wholeExact := accumulate_eq wholeValid 0
  change _ = fitWord (digitsValue whole) at wholeExact
  rw [← fracExact]
  unfold parseParts
  rw [fracRead]
  cases read : accumulate whole 0 with
  | none =>
      rw [read, fitWord] at wholeExact
      refine ⟨fun wrong => (nomatch wrong), fun same => ?_⟩
      split at wholeExact
      · cases wholeExact
      · omega
  | some wholeValue =>
      have wholeWord : wholeValue.toNat = digitsValue whole :=
        fitWord_eq_some.mp (wholeExact.symm.trans read)
      have guard : wholeValue > uint64Max / piPer314ST ↔
          (2 ^ 64 - 1) / 1000000 < digitsValue whole := by
        rw [gt_iff_lt, UInt64.lt_iff_toNat_lt, UInt64.toNat_div, uint64Max_eq, million, wholeWord]
      simp only [guard]
      split
      next large =>
        exact ⟨fun wrong => (nomatch wrong), fun same => by omega⟩
      next fits =>
        have scaled : (wholeValue * piPer314ST).toNat = digitsValue whole * 1000000 := by
          rw [UInt64.toNat_mul, wholeWord, million]
          exact Nat.mod_eq_of_lt (by omega)
        have below : fracValue ≤ uint64Max :=
          UInt64.le_iff_toNat_le.mpr (by rw [uint64Max_eq]; omega)
        have guard : wholeValue * piPer314ST > uint64Max - fracValue ↔
            2 ^ 64 ≤ digitsValue whole * 1000000 + fracValue.toNat := by
          rw [gt_iff_lt, UInt64.lt_iff_toNat_lt, UInt64.toNat_sub_of_le _ _ below, uint64Max_eq,
            scaled]
          omega
        simp only [guard]
        split
        next large =>
          exact ⟨fun wrong => (nomatch wrong), fun same => by omega⟩
        next fits =>
          have total : (wholeValue * piPer314ST + fracValue).toNat =
              digitsValue whole * 1000000 + fracValue.toNat := by
            rw [UInt64.toNat_add, scaled]
            exact Nat.mod_eq_of_lt (by omega)
          rw [← total, UInt64.toNat_inj]
          split
          next zero =>
            exact ⟨fun wrong => (nomatch wrong), fun same => absurd (same.1.trans zero) same.2⟩
          next positive =>
            rw [Except.ok.injEq, eq_comm]
            exact ⟨fun same => ⟨same, same ▸ positive⟩, fun same => same.1⟩

theorem digit_between {c : Char} : c.isDigit = true ↔ '0' ≤ c ∧ c ≤ '9' := by
  rw [Char.isDigit, Bool.and_eq_true, decide_eq_true_eq, decide_eq_true_eq]
  exact Iff.rfl

theorem digits_no_dot {digits : Text} (valid : ∀ c ∈ digits, c.isDigit = true) :
    ∀ c ∈ digits, c ≠ '.' := by
  rintro c listed rfl
  exact absurd (valid '.' listed) (by decide)

/-- The parts of a text at its first dot. -/
theorem split_at_dot {whole : Text} (frac : Text) (plain : ∀ c ∈ whole, c ≠ '.') :
    (whole ++ '.' :: frac).takeWhile (· ≠ '.') = whole ∧
      (whole ++ '.' :: frac).dropWhile (· ≠ '.') = '.' :: frac := by
  have kept : ∀ c ∈ whole, decide (c ≠ '.') = true :=
    fun c listed => decide_eq_true (plain c listed)
  constructor
  · rw [List.takeWhile_append_of_pos kept]
    exact List.append_nil whole
  · rw [List.dropWhile_append_of_pos kept]
    rfl

theorem parse314stPi_whole {digits : Text} (present : digits ≠ [])
    (valid : ∀ c ∈ digits, c.isDigit = true) :
    parse314stPi digits = parseParts digits [] := by
  have plain := digits_no_dot valid
  have kept : ∀ c ∈ digits, decide (c ≠ '.') = true :=
    fun c listed => decide_eq_true (plain c listed)
  have characters : (digits.any fun c => c ≠ '.' ∧ ¬('0' ≤ c ∧ c ≤ '9')) = false := by
    rw [List.any_eq_false]
    intro c listed wrong
    exact (of_decide_eq_true wrong).2 (digit_between.mp (valid c listed))
  have noDot : (digits.any (· = '.')) = false := by
    rw [List.any_eq_false]
    exact fun c listed wrong => plain c listed (of_decide_eq_true wrong)
  have count : digits.count '.' = 0 :=
    List.count_eq_zero.mpr fun listed => plain '.' listed rfl
  have front : digits.takeWhile (· ≠ '.') = digits := List.takeWhile_eq_self_iff.mpr kept
  have rest : digits.dropWhile (· ≠ '.') = [] := List.dropWhile_eq_nil_iff.mpr kept
  have filled : digits.isEmpty = false := List.isEmpty_eq_false_iff.mpr present
  unfold parse314stPi
  simp only [filled, characters, count, front, rest, noDot]
  rfl

theorem parse314stPi_fraction {whole frac : Text} (wholePresent : whole ≠ [])
    (fracPresent : frac ≠ []) (wholeValid : ∀ c ∈ whole, c.isDigit = true)
    (fracValid : ∀ c ∈ frac, c.isDigit = true) (places : frac.length ≤ 6) :
    parse314stPi (whole ++ '.' :: frac) = parseParts whole frac := by
  obtain ⟨front, rest⟩ := split_at_dot frac (digits_no_dot wholeValid)
  have characters :
      ((whole ++ '.' :: frac).any fun c => c ≠ '.' ∧ ¬('0' ≤ c ∧ c ≤ '9')) = false := by
    rw [List.any_eq_false]
    intro c listed wrong
    obtain ⟨other, invalid⟩ := of_decide_eq_true wrong
    rcases List.mem_append.mp listed with early | late
    · exact invalid (digit_between.mp (wholeValid c early))
    · rcases List.mem_cons.mp late with dot | late
      · exact other dot
      · exact invalid (digit_between.mp (fracValid c late))
  have dotted : ((whole ++ '.' :: frac).any (· = '.')) = true :=
    List.any_eq_true.mpr ⟨'.', List.mem_append_right _ List.mem_cons_self, rfl⟩
  have count : (whole ++ '.' :: frac).count '.' = 1 := by
    rw [List.count_append, List.count_cons_self,
      List.count_eq_zero.mpr fun listed => digits_no_dot wholeValid '.' listed rfl,
      List.count_eq_zero.mpr fun listed => digits_no_dot fracValid '.' listed rfl]
  have filled : (whole ++ '.' :: frac).isEmpty = false :=
    List.isEmpty_eq_false_iff.mpr (List.append_ne_nil_of_left_ne_nil wholePresent _)
  have wholeFilled : whole.isEmpty = false := List.isEmpty_eq_false_iff.mpr wholePresent
  have fracFilled : frac.isEmpty = false := List.isEmpty_eq_false_iff.mpr fracPresent
  have short : ¬Text.size frac > 6 := by
    rw [size_of_digits fracValid]
    omega
  unfold parse314stPi
  simp only [filled, characters, count, front, rest, dotted, wholeFilled, fracFilled,
    List.drop_succ_cons, List.drop_zero, short]
  rfl

theorem dropWhile_eq_dot {text frac : Text} {dot : Char}
    (rest : text.dropWhile (· ≠ '.') = dot :: frac) : dot = '.' := by
  have stopped := List.head?_dropWhile_not (fun c : Char => decide (c ≠ '.')) text
  rw [rest] at stopped
  exact not_not.mp (of_decide_eq_false stopped)

/-- An accepted text is a decimal amount. -/
theorem amountText_of_parse {text : Text} {pi : UInt64} (parsed : parse314stPi text = .ok pi) :
    ∃ value, AmountText text value := by
  unfold parse314stPi at parsed
  simp only at parsed
  split at parsed
  · cases parsed
  split at parsed
  · cases parsed
  next characters =>
  split at parsed
  · cases parsed
  next dots =>
  split at parsed
  · cases parsed
  next parts =>
  split at parsed
  · cases parsed
  next places =>
    have valid : ∀ c ∈ text, c ≠ '.' → c.isDigit = true := by
      intro c listed other
      by_contra invalid
      rw [Bool.not_eq_true, List.any_eq_false] at characters
      exact characters c listed (decide_eq_true ⟨other, fun between =>
        invalid (digit_between.mpr between)⟩)
    rw [Bool.not_eq_true, Bool.or_eq_false_iff, List.isEmpty_eq_false_iff] at parts
    have front : ∀ c ∈ text.takeWhile (· ≠ '.'), c.isDigit = true := by
      intro c listed
      exact valid c (List.takeWhile_subset _ listed)
        (of_decide_eq_true
          (List.mem_takeWhile_imp (p := (fun c : Char => decide (c ≠ '.'))) listed))
    have parted := List.takeWhile_append_dropWhile (p := fun c => decide (c ≠ '.')) (l := text)
    cases rest : text.dropWhile (· ≠ '.') with
    | nil =>
        rw [rest, List.append_nil] at parted
        rw [← parted]
        exact ⟨_, .whole parts.1 front⟩
    | cons dot frac =>
        rw [rest] at parted places parts
        obtain rfl := dropWhile_eq_dot rest
        have dotted : (text.any (· = '.')) = true :=
          List.any_eq_true.mpr ⟨'.', by rw [← parted]; simp, rfl⟩
        rw [dotted, Bool.true_and, List.drop_succ_cons, List.drop_zero,
          List.isEmpty_eq_false_iff] at parts
        have single : frac.count '.' = 0 := by
          rw [← parted, List.count_append, List.count_cons_self] at dots
          omega
        have fracValid : ∀ c ∈ frac, c.isDigit = true := by
          intro c listed
          refine valid c ?_ fun dot => List.count_eq_zero.mp single (dot ▸ listed)
          rw [← parted]
          exact List.mem_append_right _ (List.mem_cons_of_mem _ listed)
        rw [List.drop_succ_cons, List.drop_zero, size_of_digits fracValid] at places
        rw [← parted]
        exact ⟨_, .fraction parts.1 parts.2 front fracValid (Nat.not_lt.mp places)⟩

/-- A decimal amount is accepted exactly when its value is a positive word, and
is read as that value. -/
theorem parse314stPi_eq_ok {text : Text} {value : ℕ} (decimal : AmountText text value)
    (pi : UInt64) : parse314stPi text = .ok pi ↔ pi.toNat = value ∧ pi ≠ 0 := by
  cases decimal with
  | whole present valid =>
      rw [parse314stPi_whole present valid,
        parseParts_eq_ok valid (List.forall_mem_nil _) (Nat.zero_le 6)]
      change pi.toNat = _ + 0 * _ ∧ _ ↔ _
      rw [Nat.zero_mul, Nat.add_zero]
  | fraction wholePresent fracPresent wholeValid fracValid places =>
      rw [parse314stPi_fraction wholePresent fracPresent wholeValid fracValid places,
        parseParts_eq_ok wholeValid fracValid places]

/-! ## The printed amount -/

theorem isDigit_of_mem_decimal {number : ℕ} : ∀ c ∈ Json.decimal number, c.isDigit = true :=
  fun _ => Nat.isDigit_of_mem_toDigits (by decide) (by decide)

theorem amountText_format (pi : UInt64) : AmountText (format314stPi pi) pi.toNat := by
  have million : piPer314ST.toNat = 1000000 := rfl
  have remainder : pi.toNat % 1000000 < 1000000 := Nat.mod_lt _ (by decide)
  have short : (Json.decimal (pi.toNat % 1000000)).length ≤ 6 :=
    (Nat.length_toDigits_le_iff (by decide) (by decide)).mpr remainder
  have padded : digitsValue (List.replicate (6 - (Json.decimal (pi.toNat % 1000000)).length) '0' ++
      Json.decimal (pi.toNat % 1000000)) = pi.toNat % 1000000 := by
    rw [digitsValue, Nat.ofDigitChars_append, Nat.ofDigitChars_replicate_zero, Nat.mul_zero]
    exact Nat.ofDigitChars_ten_toDigits
  have width : (List.replicate (6 - (Json.decimal (pi.toNat % 1000000)).length) '0' ++
      Json.decimal (pi.toNat % 1000000)).length = 6 := by
    rw [List.length_append, List.length_replicate]
    omega
  have read := @AmountText.fraction (Json.decimal (pi.toNat / 1000000))
    (List.replicate (6 - (Json.decimal (pi.toNat % 1000000)).length) '0' ++
      Json.decimal (pi.toNat % 1000000))
    Nat.toDigits_ne_nil (List.append_ne_nil_of_right_ne_nil _ Nat.toDigits_ne_nil)
    isDigit_of_mem_decimal
    (by
      intro c listed
      rcases List.mem_append.mp listed with zero | digit
      · rw [List.eq_of_mem_replicate zero]
        rfl
      · exact isDigit_of_mem_decimal c digit)
    (by omega)
  have whole : digitsValue (Json.decimal (pi.toNat / 1000000)) = pi.toNat / 1000000 :=
    Nat.ofDigitChars_ten_toDigits
  rw [width, padded, whole, Nat.sub_self, Nat.pow_zero, Nat.mul_one] at read
  have total : pi.toNat / 1000000 * 1000000 + pi.toNat % 1000000 = pi.toNat := by omega
  rw [total] at read
  exact read

/-- The parser accepts exactly the decimal amounts of at most six places whose
value in pi is positive and fits a word; it gives that value, and reads every
printed amount back. -/
theorem amounts_exact :
    (∀ text : Text, (∃ pi, parse314stPi text = .ok pi) ↔
      ∃ value, AmountText text value ∧ 1 ≤ value ∧ value ≤ 2 ^ 64 - 1) ∧
    (∀ text value, AmountText text value → ∀ pi, parse314stPi text = .ok pi → pi.toNat = value) ∧
    ∀ pi : UInt64, pi ≠ 0 → parse314stPi (format314stPi pi) = .ok pi := by
  refine ⟨fun text => ⟨?_, ?_⟩, fun text value decimal pi parsed => ?_, fun pi positive => ?_⟩
  · rintro ⟨pi, parsed⟩
    obtain ⟨value, decimal⟩ := amountText_of_parse parsed
    obtain ⟨same, positive⟩ := (parse314stPi_eq_ok decimal pi).mp parsed
    have least : pi.toNat ≠ 0 := fun zero => positive (UInt64.toNat_inj.mp zero)
    have most := pi.toNat_lt
    exact ⟨value, decimal, by omega, by omega⟩
  · rintro ⟨value, decimal, least, most⟩
    have word : (UInt64.ofNat value).toNat = value :=
      UInt64.toNat_ofNat_of_lt' (by change value < 2 ^ 64; omega)
    refine ⟨UInt64.ofNat value, (parse314stPi_eq_ok decimal _).mpr ⟨word, fun zero => ?_⟩⟩
    rw [zero] at word
    change 0 = value at word
    omega
  · exact ((parse314stPi_eq_ok decimal pi).mp parsed).1
  · exact (parse314stPi_eq_ok (amountText_format pi) pi).mpr ⟨rfl, positive⟩

/-! ## The wallet and the node -/

namespace Wallet

/-- Digits that end in zeros beyond the third place are within a thousandth. -/
theorem size_trimmed_le {frac : Text} (valid : ∀ c ∈ frac, c.isDigit = true)
    (divides : digitsValue frac % 10 ^ (frac.length - 3) = 0) :
    Text.size (frac.reverse.dropWhile (· = '0')) ≤ 3 := by
  have trailing := eq_zero_of_mem_trailing valid divides
  have zeros : ∀ c ∈ frac.reverse.take (frac.length - 3), decide (c = '0') = true :=
    fun c listed => decide_eq_true (trailing c listed)
  have parted := List.take_append_drop (frac.length - 3) frac.reverse
  have dropped : frac.reverse.dropWhile (· = '0') =
      (frac.reverse.drop (frac.length - 3)).dropWhile (· = '0') := by
    rw [← parted, List.dropWhile_append_of_pos zeros, parted]
  have subset : ∀ c ∈ (frac.reverse.drop (frac.length - 3)).dropWhile (· = '0'),
      c.isDigit = true := fun c listed =>
    valid c (List.mem_reverse.mp (List.mem_of_mem_drop
      ((List.dropWhile_sublist _).subset listed)))
  have shorter := (List.dropWhile_sublist (l := frac.reverse.drop (frac.length - 3))
    (fun c => decide (c = '0'))).length_le
  rw [List.length_drop, List.length_reverse] at shorter
  rw [dropped, size_of_digits subset]
  omega

/-- A text whose pi are thousands of pi has no digit beyond the third place. -/
theorem withinMilli_of_parse {text : Text} {pi : UInt64} (parsed : parse314stPi text = .ok pi)
    (thousands : pi.toNat % 1000 = 0) : withinMilli text = true := by
  obtain ⟨value, decimal⟩ := amountText_of_parse parsed
  obtain ⟨same, _⟩ := (parse314stPi_eq_ok decimal pi).mp parsed
  cases decimal with
  | whole present valid =>
      have noDot : text.contains '.' = false := by
        rw [List.contains_eq_mem, decide_eq_false_iff_not]
        exact fun listed => digits_no_dot valid '.' listed rfl
      rw [withinMilli, noDot]
      rfl
  | @fraction whole frac wholePresent fracPresent wholeValid fracValid places =>
      have rest := (split_at_dot frac (digits_no_dot wholeValid)).2
      have divides : digitsValue frac % 10 ^ (frac.length - 3) = 0 := by
        rcases Nat.lt_or_ge frac.length 3 with short | long
        · rw [Nat.sub_eq_zero_of_le (Nat.le_of_lt short), Nat.pow_zero, Nat.mod_one]
        · have scale : 10 ^ (frac.length - 3) * 10 ^ (6 - frac.length) = 1000 := by
            have exponent : frac.length - 3 + (6 - frac.length) = 3 := by omega
            rw [← Nat.pow_add, exponent]
          have fraction : digitsValue frac * 10 ^ (6 - frac.length) % 1000 = 0 := by omega
          rw [← scale, Nat.mul_mod_mul_right] at fraction
          exact (Nat.mul_eq_zero.mp fraction).resolve_right (Nat.pow_pos (by decide)).ne'
      rw [withinMilli, rest, List.drop_succ_cons, List.drop_zero]
      simp only [Bool.or_eq_true, decide_eq_true_eq]
      exact Or.inr (size_trimmed_le fracValid divides)

/-- What is stored for an amount in pi at a height. -/
def StoredAs (height : Nat) (pi stored : UInt64) : Prop :=
  if height ≥ piActivationHeight then stored = pi else pi % 1000 = 0 ∧ stored = pi / 1000

/-- A positive amount is stored as a positive integer. -/
theorem StoredAs.pos {height : Nat} {pi stored : UInt64} (kept : StoredAs height pi stored)
    (positive : pi ≠ 0) : stored ≠ 0 := by
  unfold StoredAs at kept
  split at kept
  · rwa [kept]
  · intro zero
    have divides := congrArg UInt64.toNat kept.1
    have quotient := congrArg UInt64.toNat (kept.2.symm.trans zero)
    rw [UInt64.toNat_mod] at divides
    rw [UInt64.toNat_div] at quotient
    change _ % 1000 = 0 at divides
    change _ / 1000 = 0 at quotient
    exact positive (UInt64.toNat_inj.mp (show pi.toNat = 0 by omega))

section Readers

variable {text : Text} {activation : UInt32} {height : Nat} {stored pi : UInt64}

/-- The scale that the daemon reports for a height. -/
def moneyFor (activation : UInt32) (height : Nat) : Money :=
  ⟨activation, (amountScaleForNext height).toUInt32⟩

theorem scale_moneyFor :
    (moneyFor activation height).scale = 1000 ↔ height ≥ piActivationHeight := by
  change (amountScaleForNext height).toUInt32 = 1000 ↔ _
  unfold amountScaleForNext
  split
  next late => exact ⟨fun _ => late, fun _ => by decide⟩
  next early => exact ⟨fun wrong => absurd wrong (by decide), fun late => absurd late early⟩

theorem parseAmount_eq_ok : parseAmount text (moneyFor activation height) = .ok (stored, pi) ↔
    parse314stPi text = .ok pi ∧ StoredAs height pi stored := by
  unfold parseAmount StoredAs
  simp only [scale_moneyFor]
  cases parsed : parse314stPi text with
  | error reason => exact ⟨fun wrong => (nomatch wrong), fun wrong => (nomatch wrong.1)⟩
  | ok read =>
      simp only [Except.ok.injEq]
      split
      next late =>
        rw [Except.ok.injEq, Prod.mk.injEq]
        exact ⟨fun ⟨same, kept⟩ => ⟨kept, by rw [← same, kept]⟩,
          fun ⟨kept, same⟩ => ⟨by rw [same, kept], kept⟩⟩
      next early =>
        split
        next refused =>
          refine ⟨fun wrong => (nomatch wrong), fun ⟨kept, thousands, _⟩ => ?_⟩
          subst kept
          have divides := congrArg UInt64.toNat thousands
          rw [UInt64.toNat_mod] at divides
          exact (refused.resolve_right (not_not.mpr thousands)
            (withinMilli_of_parse parsed divides)).elim
        next accepted =>
          have thousands : read % 1000 = 0 := not_not.mp (not_or.mp accepted).2
          rw [Except.ok.injEq, Prod.mk.injEq]
          exact ⟨fun ⟨same, kept⟩ => ⟨kept, kept ▸ thousands, by rw [← same, kept]⟩,
            fun ⟨kept, _, same⟩ => ⟨by rw [same, kept], kept⟩⟩

theorem parseFee_eq_ok : parseFee text (moneyFor activation height) = .ok (stored, pi) ↔
    parse314stPi text = .ok pi ∧ StoredAs height pi stored ∧ minFeeForHeight height ≤ stored := by
  rw [← and_assoc, ← @parseAmount_eq_ok text activation]
  unfold parseFee
  simp only [scale_moneyFor]
  cases read : parseAmount text (moneyFor activation height) with
  | error reason => exact ⟨fun wrong => (nomatch wrong), fun wrong => (nomatch wrong.1)⟩
  | ok pair =>
      obtain ⟨amount, value⟩ := pair
      obtain ⟨parsed, kept⟩ := parseAmount_eq_ok.mp read
      have positive := kept.pos (parse314stPi_pos parsed)
      have enough : (height ≥ piActivationHeight ∧ value < 314) ↔
          ¬minFeeForHeight height ≤ amount := by
        unfold StoredAs at kept
        unfold minFeeForHeight
        split
        next late =>
          rw [if_pos late] at kept
          rw [kept, UInt64.not_le]
          exact and_iff_right late
        next early =>
          refine ⟨fun ⟨late, _⟩ => absurd late early, fun low => absurd ?_ low⟩
          rw [UInt64.le_iff_toNat_le]
          exact Nat.pos_of_ne_zero fun zero => positive (UInt64.toNat_inj.mp zero)
      simp only [enough, Except.ok.injEq]
      split
      next low =>
        refine ⟨fun wrong => (nomatch wrong), fun ⟨same, least⟩ => ?_⟩
        rw [(Prod.mk.inj same).1] at low
        exact absurd least low
      next least =>
        refine ⟨fun same => ⟨Except.ok.inj same, ?_⟩, fun same => congrArg Except.ok same.1⟩
        rw [(Prod.mk.inj (Except.ok.inj same)).1] at least
        exact not_not.mp least

/-- The last check of the node only refuses a fee below the minimum. -/
theorem checked_eq_ok {fee : Bool} {amount : UInt64} :
    (if fee = true ∧ amount < minFeeForHeight height then Except.error "fee too low"
      else .ok amount) = .ok stored ↔
      stored = amount ∧ (fee = true → minFeeForHeight height ≤ stored) := by
  split
  next low =>
    refine ⟨fun wrong => (nomatch wrong), fun ⟨same, least⟩ => ?_⟩
    exact absurd low.2 (UInt64.not_lt.mpr (same ▸ least low.1))
  next least =>
    rw [Except.ok.injEq]
    refine ⟨fun same => ⟨same.symm, fun isFee => ?_⟩, fun same => same.1.symm⟩
    rw [← same]
    exact UInt64.not_lt.mp fun low => least ⟨isFee, low⟩

theorem storedFromJsonAmount_eq_ok {fee : Bool} :
    storedFromJsonAmount (.string text) height fee = .ok stored ↔
      ∃ pi, parse314stPi text = .ok pi ∧ StoredAs height pi stored ∧
        (fee = true → minFeeForHeight height ≤ stored) := by
  simp only [storedFromJsonAmount]
  cases parsed : parse314stPi text with
  | error reason =>
      constructor
      · intro wrong
        cases wrong
      · rintro ⟨pi, wrong, _⟩
        cases wrong
  | ok read =>
      have positive := parse314stPi_pos parsed
      simp only [Except.ok.injEq, exists_eq_left']
      unfold StoredAs
      split
      next late => exact checked_eq_ok
      next early =>
        split
        next refused =>
          constructor
          · intro wrong
            cases wrong
          · rintro ⟨⟨thousands, _⟩, _⟩
            exact absurd thousands refused
        next thousands =>
          have kept : StoredAs height read (read / piPerOldUnit) := by
            rw [StoredAs, if_neg early]
            exact ⟨not_not.mp thousands, rfl⟩
          rw [if_neg (kept.pos positive), checked_eq_ok]
          exact and_congr_left fun _ => (and_iff_right (not_not.mp thousands)).symm

end Readers

/-- At every height the wallet takes the texts that the node takes as a string, as
an amount and as a fee, and both store the same integer. -/
theorem amounts_alike (text : Text) (activation : UInt32) (height : Nat) (stored : UInt64) :
    ((∃ pi, parseAmount text (moneyFor activation height) = .ok (stored, pi)) ↔
      storedFromJsonAmount (.string text) height false = .ok stored) ∧
    ((∃ pi, parseFee text (moneyFor activation height) = .ok (stored, pi)) ↔
      storedFromJsonAmount (.string text) height true = .ok stored) := by
  constructor
  · rw [storedFromJsonAmount_eq_ok]
    refine exists_congr fun pi => parseAmount_eq_ok.trans (and_congr_right fun _ => ?_)
    exact (and_iff_left fun wrong => absurd wrong Bool.false_ne_true).symm
  · rw [storedFromJsonAmount_eq_ok]
    refine exists_congr fun pi => parseFee_eq_ok.trans ?_
    exact and_congr_right fun _ => and_congr_right fun _ =>
      ⟨fun least _ => least, fun least => least rfl⟩

end Wallet

end PiSecure
