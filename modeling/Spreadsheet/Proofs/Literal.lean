import Spreadsheet.Proofs.FloatBits
import Spreadsheet.Proofs.TextRuns

/-! The text of a number reads back as that number: the exact decimal of a double rounds to
the double itself, and the shortest one is chosen among those that do. -/
namespace Spreadsheet.Number

/-! Rounding an exactly representable quotient. -/

theorem scaleDown_ratio (num : Nat) {den : Nat} (positive : 0 < den) (e : Int) :
    0 < (scaleDown num den e).2 ∧
      ((scaleDown num den e).1 : ℚ) / (scaleDown num den e).2 = num / den / (2 : ℚ) ^ e := by
  cases e with
  | ofNat e =>
    refine ⟨by simp only [scaleDown, Nat.pow_eq]; positivity, ?_⟩
    simp only [scaleDown, Nat.pow_eq, Int.ofNat_eq_natCast, zpow_natCast, Nat.cast_mul,
      Nat.cast_pow, Nat.cast_ofNat]
    rw [div_div]
  | negSucc e =>
    refine ⟨positive, ?_⟩
    simp only [scaleDown, Nat.pow_eq, zpow_negSucc, div_inv_eq_mul, Nat.cast_mul, Nat.cast_pow,
      Nat.cast_ofNat]
    ring

private theorem two_zpow_log2_le {n : Nat} (positive : 0 < n) :
    (2 : ℚ) ^ (n.log2 : Int) ≤ n ∧ (n : ℚ) < 2 ^ ((n.log2 : Int) + 1) := by
  have low : 2 ^ n.log2 ≤ n := Nat.log2_self_le positive.ne'
  have high : n < 2 ^ (n.log2 + 1) := Nat.lt_log2_self
  constructor
  · rw [zpow_natCast]
    exact_mod_cast low
  · rw [show ((n.log2 : Int) + 1) = ((n.log2 + 1 : Nat) : Int) by push_cast; rfl, zpow_natCast]
    exact_mod_cast high

private theorem zpow_lt_iff {d e : Int} : (2 : ℚ) ^ d < 2 ^ e ↔ d < e :=
  zpow_lt_zpow_iff_right₀ (by norm_num)

theorem floorLog_eq {num den : Nat} {e : Int} (positive : 0 < den) (nonzero : 0 < num)
    (low : (2 : ℚ) ^ e ≤ num / den) (high : (num : ℚ) / den < 2 ^ (e + 1)) :
    floorLog num den = e := by
  obtain ⟨numLow, numHigh⟩ := two_zpow_log2_le nonzero
  obtain ⟨denLow, denHigh⟩ := two_zpow_log2_le positive
  have denPositive : (0 : ℚ) < den := by exact_mod_cast positive
  have above : (num : ℚ) / den < 2 ^ ((num.log2 : Int) - den.log2 + 1) := by
    rw [div_lt_iff₀ denPositive]
    calc (num : ℚ) < 2 ^ ((num.log2 : Int) + 1) := numHigh
      _ = 2 ^ ((num.log2 : Int) - den.log2 + 1) * 2 ^ (den.log2 : Int) := by
        rw [← zpow_add₀ (by norm_num)]
        congr 1
        ring
      _ ≤ 2 ^ ((num.log2 : Int) - den.log2 + 1) * den := by gcongr
  have below : (2 : ℚ) ^ ((num.log2 : Int) - den.log2 - 1) < num / den := by
    rw [lt_div_iff₀ denPositive]
    calc (2 : ℚ) ^ ((num.log2 : Int) - den.log2 - 1) * den
        < 2 ^ ((num.log2 : Int) - den.log2 - 1) * 2 ^ ((den.log2 : Int) + 1) := by gcongr
      _ = 2 ^ (num.log2 : Int) := by
        rw [← zpow_add₀ (by norm_num)]
        congr 1
        ring
      _ ≤ num := numLow
  have upper : e < num.log2 - den.log2 + 1 := zpow_lt_iff.mp (low.trans_lt above)
  have lower : (num.log2 : Int) - den.log2 - 1 < e + 1 := zpow_lt_iff.mp (below.trans high)
  obtain ⟨scaled, ratio⟩ := scaleDown_ratio num positive ((num.log2 : Int) - den.log2)
  have scaledPositive : (0 : ℚ) < (scaleDown num den ((num.log2 : Int) - den.log2)).2 := by
    exact_mod_cast scaled
  have power : (0 : ℚ) < 2 ^ ((num.log2 : Int) - den.log2) := by positivity
  unfold floorLog
  simp only
  split
  · rename_i h
    have atLeast : (2 : ℚ) ^ ((num.log2 : Int) - den.log2) ≤ num / den := by
      have : (1 : ℚ) ≤ num / den / 2 ^ ((num.log2 : Int) - den.log2) := by
        rw [← ratio, one_le_div scaledPositive]
        exact_mod_cast h
      rwa [one_le_div power] at this
    have := zpow_lt_iff.mp (atLeast.trans_lt high)
    omega
  · rename_i h
    have less : (num : ℚ) / den < 2 ^ ((num.log2 : Int) - den.log2) := by
      have : (num : ℚ) / den / 2 ^ ((num.log2 : Int) - den.log2) < 1 := by
        rw [← ratio, div_lt_one scaledPositive]
        exact_mod_cast Nat.lt_of_not_le h
      rwa [div_lt_one power] at this
    have := zpow_lt_iff.mp (low.trans_lt less)
    omega

theorem roundDiv_mul {m d : Nat} (positive : 0 < d) : roundDiv (m * d) d = m := by
  unfold roundDiv
  simp only [Nat.mul_mod_left, Nat.mul_div_left m positive]
  rw [if_pos (by omega)]

/-- A significand of at most 53 bits that is long enough, or stands at the lowest exponent. -/
structure Binary.IsCanonical (b : Binary) : Prop where
  positive : 0 < b.significand
  short : b.significand < 2 ^ 53
  low : -1074 ≤ b.exponent
  long : b.exponent = -1074 ∨ 2 ^ 52 ≤ b.significand

theorem nearestBits_exact {num den : Nat} {b : Binary} (canonical : b.IsCanonical)
    (positive : 0 < den) (value : (num : ℚ) / den = b.significand * (2 : ℚ) ^ b.exponent) :
    nearestBits num den =
      min ((b.exponent + 1074).toNat * 2 ^ 52 + b.significand) infinityBits := by
  obtain ⟨significand, exponent⟩ := b
  obtain ⟨nonzero, short, lowest, long⟩ := canonical
  simp only at *
  have denPositive : (0 : ℚ) < den := by exact_mod_cast positive
  have numPositive : 0 < num := by
    have : (0 : ℚ) < num / den := by rw [value]; positivity
    exact_mod_cast (div_pos_iff_of_pos_right denPositive).mp this
  obtain ⟨powLow, powHigh⟩ := two_zpow_log2_le nonzero
  have log : floorLog num den = significand.log2 + exponent := by
    apply floorLog_eq positive numPositive
    · rw [value, zpow_add₀ (by norm_num)]
      gcongr
    · rw [value, show (significand.log2 : Int) + exponent + 1 = significand.log2 + 1 + exponent
        by ring, zpow_add₀ (by norm_num)]
      gcongr
  have log2Short : significand.log2 ≤ 52 := by
    have := (Nat.log2_lt nonzero.ne').mpr short
    omega
  have scale : max (floorLog num den - 52) (-1074) = exponent := by
    rw [log]
    rcases long with lowExponent | long
    · omega
    · have : significand.log2 = 52 := (Nat.log2_eq_iff nonzero.ne').mpr ⟨long, short⟩
      omega
  obtain ⟨scaled, ratio⟩ := scaleDown_ratio num positive exponent
  have quotient : (scaleDown num den exponent).1 =
      significand * (scaleDown num den exponent).2 := by
    rw [value, mul_div_assoc, div_self (by positivity), mul_one,
      div_eq_iff (by exact_mod_cast scaled.ne')] at ratio
    exact_mod_cast ratio
  unfold nearestBits
  rw [if_neg numPositive.ne']
  simp only [scale, quotient, Nat.pow_eq]
  rw [roundDiv_mul scaled]

/-! The exact decimal of a double. -/

theorem Binary.isCanonical_ofBits {bits : Nat} (nonzero : bits ≠ 0) (finite : bits < infinityBits) :
    (Binary.ofBits bits).IsCanonical ∧
      ((Binary.ofBits bits).exponent + 1074).toNat * 2 ^ 52 + (Binary.ofBits bits).significand =
        bits := by
  unfold infinityBits at finite
  unfold Binary.ofBits
  simp only [Nat.pow_eq] at finite ⊢
  split
  · exact ⟨⟨by simp only; omega, by simp only; omega, by simp, .inl rfl⟩, by simp only; omega⟩
  · exact ⟨⟨by simp only; omega, by simp only; omega, by simp only; omega, by simp only; omega⟩,
      by simp only; omega⟩

def Binary.value (b : Binary) : ℚ := b.significand * (2 : ℚ) ^ b.exponent

def Decimal.value (d : Decimal) : ℚ := d.coefficient * (10 : ℚ) ^ d.exponent

theorem Decimal.exists_ratio (d : Decimal) : ∃ num den : Nat,
    0 < den ∧ (num : ℚ) / den = d.value ∧ d.nearest = nearestBits num den := by
  obtain ⟨c, exponent⟩ := d
  cases exponent with
  | ofNat e => exact ⟨c * 10 ^ e, 1, Nat.one_pos, by simp [value], rfl⟩
  | negSucc e =>
    refine ⟨c, 10 ^ (e + 1), by positivity, ?_, rfl⟩
    simp only [value, zpow_negSucc, Nat.cast_pow, Nat.cast_ofNat]
    rfl

theorem Decimal.nearest_of_zero {d : Decimal} (zero : d.value = 0) : d.nearest = 0 := by
  obtain ⟨num, den, positive, ratio, nearest⟩ := d.exists_ratio
  rw [zero, div_eq_zero_iff] at ratio
  have nothing : num = 0 := by exact_mod_cast ratio.resolve_right (by exact_mod_cast positive.ne')
  rw [nearest, nothing]
  rfl

theorem Binary.value_toDecimal (b : Binary) : b.toDecimal.value = b.value := by
  obtain ⟨significand, exponent⟩ := b
  cases exponent with
  | ofNat e => simp [toDecimal, Decimal.value, value]
  | negSucc e =>
    simp only [toDecimal, Decimal.value, value, zpow_negSucc, Nat.pow_eq]
    push_cast
    rw [show (10 : ℚ) = 5 * 2 by norm_num, mul_pow]
    field_simp

theorem nearest_of_value {bits : Nat} (nonzero : bits ≠ 0) (finite : bits < infinityBits)
    {d : Decimal} (same : d.value = (Binary.ofBits bits).value) : d.nearest = bits := by
  obtain ⟨canonical, code⟩ := Binary.isCanonical_ofBits nonzero finite
  obtain ⟨num, den, positive, ratio, nearest⟩ := d.exists_ratio
  rw [nearest, nearestBits_exact canonical positive (ratio.trans same), code]
  omega

theorem nearest_toDecimal {bits : Nat} (nonzero : bits ≠ 0) (finite : bits < infinityBits) :
    (Binary.ofBits bits).toDecimal.nearest = bits :=
  nearest_of_value nonzero finite (Binary.value_toDecimal _)

theorem nearest_shortenFrom {bits : Nat} {exact : Decimal} (reads : exact.nearest = bits)
    (cut : Nat) : (shortenFrom bits exact cut).nearest = bits := by
  induction cut with
  | zero => exact reads
  | succ cut ih =>
    unfold shortenFrom
    simp only
    split
    · rename_i h
      exact h.1
    · split
      · rename_i h
        exact h
      · exact ih

theorem nearest_shortest {bits : Nat} (nonzero : bits ≠ 0) (finite : bits < infinityBits) :
    (shortest bits).nearest = bits :=
  nearest_shortenFrom (nearest_toDecimal nonzero finite) _

/-! Its digits. -/

/-- The places behind the point, filled up with zeros. -/
private theorem fraction_digits (c e : Nat) :
    (List.replicate (e + 1 - (Nat.toDigits 10 (c % 10 ^ (e + 1))).length) '0' ++
        Nat.toDigits 10 (c % 10 ^ (e + 1))).length = e + 1 ∧
      ∀ init, Nat.ofDigitChars 10
        (List.replicate (e + 1 - (Nat.toDigits 10 (c % 10 ^ (e + 1))).length) '0' ++
          Nat.toDigits 10 (c % 10 ^ (e + 1))) init = 10 ^ (e + 1) * init + c % 10 ^ (e + 1) := by
  have short : (Nat.toDigits 10 (c % 10 ^ (e + 1))).length ≤ e + 1 :=
    (Nat.length_toDigits_le_iff (by decide) (by omega)).mpr (Nat.mod_lt _ (by positivity))
  have length : (List.replicate (e + 1 - (Nat.toDigits 10 (c % 10 ^ (e + 1))).length) '0' ++
      Nat.toDigits 10 (c % 10 ^ (e + 1))).length = e + 1 := by
    simp only [List.length_append, List.length_replicate]
    omega
  refine ⟨length, fun init => ?_⟩
  rw [Nat.ofDigitChars_eq_ofDigitChars_zero, length, Nat.ofDigitChars_append,
    Nat.ofDigitChars_replicate_zero, Nat.mul_zero, Nat.ofDigitChars_ten_toDigits]

/-- The text of a decimal is a literal, of the same number if not of the same form. -/
theorem literal?_positional (d : Decimal) :
    ∃ e, Decimal.literal? d.positional = some e ∧ e.nearest = d.nearest := by
  obtain ⟨c, exponent⟩ := d
  cases exponent with
  | ofNat e =>
    have digits : ∀ a ∈ Nat.toDigits 10 c ++ List.replicate e '0', a.isDigit := by
      intro a h
      rcases List.mem_append.mp h with h | h
      · exact Text.isDigit_of_mem_toDigits a h
      · rw [List.eq_of_mem_replicate h]
        rfl
    refine ⟨⟨c * 10 ^ e, 0⟩, ?_, ?_⟩
    · unfold Decimal.literal? Decimal.positional
      simp only [Text.takeWhile_all digits, Text.dropWhile_all digits]
      rw [if_neg (by simp [Nat.toDigits_ne_nil]), Nat.ofDigitChars_append,
        Nat.ofDigitChars_replicate_zero, Nat.ofDigitChars_ten_toDigits, Nat.mul_comm]
    · show nearestBits (c * 10 ^ e * 10 ^ 0) 1 = nearestBits (c * 10 ^ e) 1
      rw [Nat.pow_zero, Nat.mul_one]
  | negSucc e =>
    refine ⟨⟨c, .negSucc e⟩, ?_, rfl⟩
    obtain ⟨length, value⟩ := fraction_digits c e
    have whole := Text.isDigit_of_mem_toDigits (n := c / 10 ^ (e + 1))
    have point : Char.isDigit '.' = false := rfl
    have digits : (List.replicate (e + 1 - (Nat.toDigits 10 (c % 10 ^ (e + 1))).length) '0' ++
        Nat.toDigits 10 (c % 10 ^ (e + 1))).all Char.isDigit := by
      rw [List.all_append, List.all_replicate, List.all_eq_true.mpr Text.isDigit_of_mem_toDigits]
      simp
    unfold Decimal.literal? Decimal.positional
    simp only [Nat.pow_eq]
    generalize List.replicate (e + 1 - (Nat.toDigits 10 (c % 10 ^ (e + 1))).length) '0' ++
      Nat.toDigits 10 (c % 10 ^ (e + 1)) = fraction at length value digits ⊢
    simp only [Text.takeWhile_run whole (Text.stops_cons point),
      Text.dropWhile_run whole (Text.stops_cons point)]
    rw [if_pos ⟨trivial, digits, by simp [Nat.toDigits_ne_nil]⟩, Nat.ofDigitChars_append, value,
      Nat.ofDigitChars_ten_toDigits, Nat.div_add_mod, length]
    rfl

/-- Only digits and at most one point. -/
theorem positional_isNumberText (d : Decimal) :
    d.positional ≠ [] ∧ ∀ c ∈ d.positional, c.isDigit ∨ c = '.' := by
  have digit : ∀ {n : Nat} {c : Char}, c ∈ Nat.toDigits 10 n → c.isDigit ∨ c = '.' :=
    fun h => .inl (Text.isDigit_of_mem_toDigits _ h)
  have zero : ∀ {n : Nat} {c : Char}, c ∈ List.replicate n '0' → c.isDigit ∨ c = '.' :=
    fun h => .inl (by rw [List.eq_of_mem_replicate h]; rfl)
  obtain ⟨c, exponent⟩ := d
  cases exponent with
  | ofNat e =>
    refine ⟨by simp [Decimal.positional, Nat.toDigits_ne_nil], fun a h => ?_⟩
    exact (List.mem_append.mp h).elim digit zero
  | negSucc e =>
    refine ⟨by simp [Decimal.positional], fun a h => ?_⟩
    simp only [Decimal.positional, List.mem_append, List.mem_cons] at h
    rcases h with h | rfl | h | h
    · exact digit h
    · exact .inr rfl
    · exact zero h
    · exact digit h

/-- What a literal can stand for: the finite numbers without a sign. -/
def IsLiteral (x : Float) : Prop := ∃ s, ofLiteral? s = some x

theorem IsLiteral.exists_bits {x : Float} (h : IsLiteral x) :
    ∃ bits < infinityBits, x = Float.ofBits (UInt64.ofNat bits) := by
  obtain ⟨s, h⟩ := h
  obtain ⟨d, -, h⟩ := Option.bind_eq_some_iff.mp h
  split at h
  · exact ⟨d.nearest, ‹_›, (Option.some.inj h).symm⟩
  · contradiction

theorem formulaText_ofBits {bits : Nat} (finite : bits < infinityBits) :
    formulaText (Float.ofBits (UInt64.ofNat bits)) = magnitudeText bits := by
  obtain ⟨magnitude, unsigned⟩ := magnitude_ofBits finite
  have number := isNaN_of_isFinite (isFinite_iff.mpr (magnitude.symm ▸ finite))
  unfold formulaText
  rw [number, unsigned, magnitude]
  rfl

theorem ofLiteral?_magnitudeText {bits : Nat} (finite : bits < infinityBits) :
    ofLiteral? (magnitudeText bits) = some (Float.ofBits (UInt64.ofNat bits)) := by
  unfold magnitudeText
  split
  · rename_i zero
    subst zero
    rfl
  · rename_i nonzero
    rw [if_neg (Nat.ne_of_lt finite)]
    obtain ⟨d, literal, nearest⟩ := literal?_positional (shortest bits)
    rw [nearest_shortest nonzero finite] at nearest
    unfold ofLiteral?
    rw [literal, Option.bind_some, nearest, if_pos finite]

/-- The text of a literal's number is a literal of that number. -/
theorem ofLiteral?_formulaText {x : Float} (h : IsLiteral x) :
    ofLiteral? (formulaText x) = some x := by
  obtain ⟨bits, finite, rfl⟩ := h.exists_bits
  rw [formulaText_ofBits finite]
  exact ofLiteral?_magnitudeText finite

theorem isLiteral_of_isFinite {x : Float} (finite : x.isFinite) (unsigned : isNegative x = false) :
    IsLiteral x := by
  have read := ofLiteral?_magnitudeText (isFinite_iff.mp finite)
  rw [ofBits_magnitude unsigned] at read
  exact ⟨_, read⟩

theorem formulaText_isNumberText {x : Float} (h : IsLiteral x) :
    formulaText x ≠ [] ∧ ∀ c ∈ formulaText x, c.isDigit ∨ c = '.' := by
  obtain ⟨bits, finite, rfl⟩ := h.exists_bits
  rw [formulaText_ofBits finite]
  unfold magnitudeText
  split
  · exact ⟨by simp, by simp⟩
  · rw [if_neg (Nat.ne_of_lt finite)]
    exact positional_isNumberText _

end Spreadsheet.Number
