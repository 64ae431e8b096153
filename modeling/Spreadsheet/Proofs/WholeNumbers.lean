import Spreadsheet.Proofs.Literal
import Spreadsheet.Proofs.Numerals

/-! Whole numbers below `10 ^ 15` are shown without a point. A decimal with fewer digits that reads
back as such a number is the number itself, because neighbours have bits of their own. -/
namespace Spreadsheet.Number

theorem Binary.IsCanonical.eq_of_code_eq {b b' : Binary} (h : b.IsCanonical) (h' : b'.IsCanonical)
    (code : (b.exponent + 1074).toNat * 2 ^ 52 + b.significand =
      (b'.exponent + 1074).toNat * 2 ^ 52 + b'.significand) : b = b' := by
  obtain ⟨significand, exponent⟩ := b
  obtain ⟨significand', exponent'⟩ := b'
  obtain ⟨-, short, low, long⟩ := h
  obtain ⟨-, short', low', long'⟩ := h'
  simp only at *
  rw [Binary.mk.injEq]
  omega

/-- Whole numbers below `2 ^ 53` are doubles. -/
theorem exists_isCanonical {n : Nat} (positive : 0 < n) (small : n < 2 ^ 53) :
    ∃ b : Binary, b.IsCanonical ∧ b.value = n := by
  have low : 2 ^ n.log2 ≤ n := Nat.log2_self_le positive.ne'
  have high : n < 2 ^ (n.log2 + 1) := Nat.lt_log2_self
  have log : n.log2 ≤ 52 := by
    have := (Nat.log2_lt positive.ne').mpr small
    omega
  obtain ⟨gap, whole⟩ := Nat.exists_eq_add_of_le log
  refine ⟨⟨n * 2 ^ gap, -gap⟩, ⟨by positivity, ?_, by simp only; omega, .inr ?_⟩, ?_⟩
  · calc n * 2 ^ gap < 2 ^ (n.log2 + 1) * 2 ^ gap := by gcongr
      _ = 2 ^ 53 := by rw [← pow_add]; congr 1; omega
  · calc 2 ^ 52 = 2 ^ n.log2 * 2 ^ gap := by rw [← pow_add, ← whole]
      _ ≤ n * 2 ^ gap := by gcongr
  · simp [Binary.value]

/-- So two of them have different bits. -/
theorem eq_of_nearest_eq {bits m n : Nat} (finite : bits < infinityBits)
    (whole : (Binary.ofBits bits).value = n) {d : Decimal} (positive : 0 < m) (small : m < 2 ^ 53)
    (value : d.value = m) (nearest : d.nearest = bits) : m = n := by
  obtain ⟨b, canonical, same⟩ := exists_isCanonical positive small
  obtain ⟨num, den, denPositive, ratio, read⟩ := d.exists_ratio
  have exact := nearestBits_exact canonical denPositive (ratio.trans (value.trans same.symm))
  rw [← read, nearest] at exact
  have code : bits = (b.exponent + 1074).toNat * 2 ^ 52 + b.significand := by omega
  have nonzero : bits ≠ 0 := by
    have := canonical.positive
    omega
  obtain ⟨canonical', code'⟩ := Binary.isCanonical_ofBits nonzero finite
  have equal : b = Binary.ofBits bits := canonical.eq_of_code_eq canonical' (code.symm.trans code'.symm)
  rw [← equal, same] at whole
  exact_mod_cast whole

theorem positional_of_value {d : Decimal} {n e : Nat} (positive : 0 < n) (exponent : d.exponent = e)
    (value : d.coefficient * 10 ^ e = n) : d.positional = Nat.toDigits 10 n := by
  obtain ⟨c, _⟩ := d
  simp only at exponent value
  subst exponent value
  exact (Text.toDigits_mul_pow (Nat.pos_of_mul_pos_right positive) e).symm

theorem toDecimal_of_whole {b : Binary} {n : Nat} (whole : b.value = n) :
    ∃ k : Nat, b.toDecimal = ⟨n * 10 ^ k, -k⟩ := by
  obtain ⟨k, exponent⟩ : ∃ k : Nat, b.toDecimal.exponent = -k := by
    obtain ⟨significand, exponent⟩ := b
    cases exponent with
    | ofNat e => exact ⟨0, rfl⟩
    | negSucc e => exact ⟨e + 1, rfl⟩
  rw [← b.value_toDecimal, Decimal.value, exponent, zpow_neg, zpow_natCast,
    mul_inv_eq_iff_eq_mul₀ (by positivity)] at whole
  refine ⟨k, ?_⟩
  rw [← exponent, show n * 10 ^ k = b.toDecimal.coefficient by exact_mod_cast whole.symm]

section
variable {bits n : Nat} (positive : 0 < n) (whole : (Binary.ofBits bits).value = n)
include positive whole

theorem nonzero_of_whole : bits ≠ 0 := by
  rintro rfl
  have zero : (Binary.ofBits 0).value = 0 := by simp [Binary.ofBits, Binary.value]
  rw [zero] at whole
  exact positive.ne (by exact_mod_cast whole)

variable (finite : bits < infinityBits)
include finite

theorem nearest_eq_iff_of_whole {d : Decimal} {m : Nat} (small : m < 2 ^ 53) (value : d.value = m) :
    d.nearest = bits ↔ m = n := by
  have nonzero := nonzero_of_whole positive whole
  constructor
  · intro nearest
    refine eq_of_nearest_eq finite whole (Nat.pos_of_ne_zero ?_) small value nearest
    rintro rfl
    exact nonzero (nearest.symm.trans (Decimal.nearest_of_zero (by simpa using value)))
  · rintro rfl
    exact nearest_of_value nonzero finite (value.trans whole.symm)

/-- Digits before the point can be cut only if they are zeros. -/
theorem shortenFrom_succ_of_whole {cut k j : Nat} (reached : cut + 1 = k + j)
    (small : n + 10 ^ j < 2 ^ 53) :
    shortenFrom bits ⟨n * 10 ^ k, -k⟩ (cut + 1) =
      if n % 10 ^ j = 0 then ⟨n / 10 ^ j, j⟩ else shortenFrom bits ⟨n * 10 ^ k, -k⟩ cut := by
  have unit : Nat.pow 10 (cut + 1) = 10 ^ j * 10 ^ k := by
    rw [Nat.pow_eq, reached, pow_add, mul_comm]
  have exponent : -(k : Int) + (cut + 1 : Nat) = j := by omega
  have below : (⟨n / 10 ^ j, j⟩ : Decimal).value = (n / 10 ^ j * 10 ^ j : Nat) := by
    simp [Decimal.value]
  have above : (⟨n / 10 ^ j + 1, j⟩ : Decimal).value = ((n / 10 ^ j + 1) * 10 ^ j : Nat) := by
    simp [Decimal.value]
  -- `below` is at most `n` and `above` is greater, and all three are small enough to be told apart.
  have split := Nat.div_add_mod' n (10 ^ j)
  have remainder := Nat.mod_lt n (show 0 < 10 ^ j by positivity)
  have distributed : (n / 10 ^ j + 1) * 10 ^ j = n / 10 ^ j * 10 ^ j + 10 ^ j := by ring
  have readsBelow : (⟨n / 10 ^ j, j⟩ : Decimal).nearest = bits ↔ n % 10 ^ j = 0 := by
    rw [nearest_eq_iff_of_whole positive whole finite (by omega) below]
    omega
  have readsAbove : (⟨n / 10 ^ j + 1, j⟩ : Decimal).nearest ≠ bits := by
    rw [ne_eq, nearest_eq_iff_of_whole positive whole finite (by omega) above]
    omega
  rw [shortenFrom]
  simp only [unit, Nat.mul_div_mul_right _ _ (show 0 < 10 ^ k by positivity), exponent]
  refine if_congr ?_ rfl (if_neg readsAbove)
  rw [readsBelow]
  exact and_iff_left (.inl readsAbove)

theorem positional_shortenFrom_of_whole {k : Nat} {j : Nat} (small : n + 10 ^ j < 2 ^ 53) :
    (shortenFrom bits ⟨n * 10 ^ k, -k⟩ (k + j)).positional = Nat.toDigits 10 n := by
  induction j with
  | zero =>
    cases k with
    | zero =>
      show Decimal.positional ⟨n * 10 ^ 0, 0⟩ = _
      exact positional_of_value (e := 0) positive rfl (by simp)
    | succ k =>
      rw [shortenFrom_succ_of_whole positive whole finite (j := 0) rfl small,
        if_pos (by rw [pow_zero, Nat.mod_one])]
      exact positional_of_value positive rfl (by simp)
  | succ j ih =>
    have smaller : n + 10 ^ j < 2 ^ 53 := by
      have : 10 ^ j ≤ 10 ^ (j + 1) := Nat.pow_le_pow_right (by decide) (Nat.le_succ j)
      omega
    rw [← Nat.add_assoc,
      shortenFrom_succ_of_whole positive whole finite (Nat.add_assoc k j 1) small]
    split
    · rename_i zeros
      exact positional_of_value positive rfl (Nat.div_mul_cancel (Nat.dvd_of_mod_eq_zero zeros))
    · exact ih smaller

theorem magnitudeText_of_whole (small : n < 10 ^ 15) : magnitudeText bits = Nat.toDigits 10 n := by
  have nonzero := nonzero_of_whole positive whole
  obtain ⟨k, form⟩ := toDecimal_of_whole whole
  have length : (Nat.toDigits 10 (n * 10 ^ k)).length = k + (Nat.toDigits 10 n).length := by
    rw [Text.toDigits_mul_pow positive, List.length_append, List.length_replicate, Nat.add_comm]
  have short : (Nat.toDigits 10 n).length ≤ 15 :=
    (Nat.length_toDigits_le_iff (by decide) (by decide)).mpr small
  have power : 10 ^ (Nat.toDigits 10 n).length ≤ 10 ^ 15 := Nat.pow_le_pow_right (by decide) short
  unfold magnitudeText shortest
  rw [if_neg nonzero, if_neg (Nat.ne_of_lt finite)]
  simp only [form, length]
  exact positional_shortenFrom_of_whole positive whole finite (by omega)

end

/-- A whole number is shown by its digits alone. -/
theorem gridText_of_whole {x : Float} (finite : x.isFinite) {n : Nat} (positive : 0 < n)
    (whole : (Binary.ofBits (magnitude x)).value = n) (small : n < 10 ^ 15) :
    gridText x = (if isNegative x then ['-'] else []) ++ Nat.toDigits 10 n := by
  unfold gridText formulaText
  rw [isNaN_of_isFinite finite, isInf_of_isFinite finite, if_neg Bool.false_ne_true,
    if_neg Bool.false_ne_true, if_neg (nonzero_of_whole positive whole), if_neg Bool.false_ne_true,
    magnitudeText_of_whole positive whole (isFinite_iff.mp finite) small]
  split <;> rfl

end Spreadsheet.Number
