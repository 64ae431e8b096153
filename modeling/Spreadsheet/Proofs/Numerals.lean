import Spreadsheet.Proofs.TextRuns
import Spreadsheet.Text.Natural

/-! Decimal numerals: a text of digits is the numeral of its number, but for zeros in front. -/
namespace Spreadsheet.Text

variable {digits : List Char}

private theorem digit_facts {c : Char} (digit : c.isDigit) :
    c.toNat - '0'.toNat < 10 ∧ (c.toNat - '0'.toNat).digitChar = c ∧
      (c.toNat - '0'.toNat = 0 ↔ c = '0') := by
  obtain ⟨low, high⟩ := isDigit_iff.mp digit
  have zero : '0'.toNat = 48 := rfl
  refine ⟨by omega, ?_, ?_⟩
  · apply Char.toNat_inj.mp
    rw [Nat.toNat_digitChar_of_lt_ten (by omega)]
    omega
  · rw [← Char.toNat_inj]
    omega

/-- Further digits behind a number that is not zero. -/
theorem toDigits_ofDigitChars (all : ∀ c ∈ digits, c.isDigit) {n : Nat} (positive : 0 < n) :
    Nat.toDigits 10 (Nat.ofDigitChars 10 digits n) = Nat.toDigits 10 n ++ digits := by
  induction digits generalizing n with
  | nil => rw [Nat.ofDigitChars_nil, List.append_nil]
  | cons c digits ih =>
    obtain ⟨digit, others⟩ := List.forall_mem_cons.mp all
    obtain ⟨small, char, -⟩ := digit_facts digit
    rw [Nat.ofDigitChars_cons, ih others (by omega),
      ← Nat.toDigits_append_toDigits (by decide) positive small, Nat.toDigits_of_lt_base small,
      char, List.append_assoc, List.singleton_append]

theorem toDigits_mul_pow {n : Nat} (positive : 0 < n) (e : Nat) :
    Nat.toDigits 10 (n * 10 ^ e) = Nat.toDigits 10 n ++ List.replicate e '0' := by
  have zeros : ∀ c ∈ List.replicate e '0', c.isDigit := by
    intro c member
    rw [List.eq_of_mem_replicate member]
    rfl
  rw [← toDigits_ofDigitChars zeros positive, Nat.ofDigitChars_replicate_zero, Nat.mul_comm]

/-- Zeros in front do not count. -/
theorem toDigits_ofDigitChars_zero (all : ∀ c ∈ digits, c.isDigit)
    (nonzero : Nat.ofDigitChars 10 digits 0 ≠ 0) :
    Nat.toDigits 10 (Nat.ofDigitChars 10 digits 0) = digits.dropWhile (· == '0') := by
  induction digits with
  | nil => exact absurd Nat.ofDigitChars_nil nonzero
  | cons c digits ih =>
    obtain ⟨digit, others⟩ := List.forall_mem_cons.mp all
    obtain ⟨small, char, isZero⟩ := digit_facts digit
    rw [Nat.ofDigitChars_cons, Nat.mul_zero, Nat.zero_add] at nonzero ⊢
    by_cases zero : c = '0'
    · subst zero
      exact ih others nonzero
    · have positive := Nat.pos_of_ne_zero fun none => zero (isZero.mp none)
      rw [toDigits_ofDigitChars others positive, Nat.toDigits_of_lt_base small, char,
        List.dropWhile_cons_of_neg (by simpa using zero), List.singleton_append]

theorem ofDigitChars_dropWhile (digits : List Char) :
    Nat.ofDigitChars 10 (digits.dropWhile (· == '0')) 0 = Nat.ofDigitChars 10 digits 0 := by
  induction digits with
  | nil => rfl
  | cons c digits ih =>
    rw [List.dropWhile_cons]
    split
    · rename_i zero
      rw [ih, eq_of_beq zero]
      rfl
    · rfl

theorem digits?_eq_some {n : Nat} : digits? digits = some n ↔ digits ≠ [] ∧
    (∀ c ∈ digits, c.isDigit) ∧ Nat.ofDigitChars 10 digits 0 = n ∧ n < indexLimit := by
  unfold digits?
  simp only [List.all_eq_true, Option.ite_none_right_eq_some, Option.some.injEq]
  grind

end Spreadsheet.Text
