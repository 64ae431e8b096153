import Mathlib
import Spreadsheet.Number.Text

/-! Bits of doubles. A finite double without a sign is packed into the bits from which it
was unpacked, and negation turns the sign bit alone. -/
namespace Spreadsheet.Number
open Float.Model UnpackedFloat

theorem toNat_unpackExponent (b : BitVec Format.binary64.numBits) :
    (unpackExponent b).toNat = b.toNat / 2 ^ 52 % 2 ^ 11 := by
  simp [unpackExponent, Nat.shiftRight_eq_div_pow]

private theorem isNaNBits_eq_false {b : BitVec Format.binary64.numBits}
    (finite : b.toNat < infinityBits) : isNaNBits b = false := by
  have bound : b.toNat < 2047 * 2 ^ 52 := finite
  have exponent := toNat_unpackExponent b
  unfold isNaNBits
  rw [decide_eq_false_iff_not]
  rintro ⟨largest, -⟩
  rw [largest] at exponent
  simp at exponent
  omega

theorem toBits_ofBits {u : UInt64} (finite : u.toNat < infinityBits) :
    (Float.ofBits u).toBits = u := by
  have packed := @pack_unpack .binary64 u.toBitVec (by decide)
  rw [isNaNBits_eq_false finite, if_neg Bool.false_ne_true] at packed
  exact UInt64.toBitVec_inj.mp packed

variable {x y : Float}

theorem unpack_eq_notANumber : x.toModel.unpack = .notANumber ↔ x = .nan := by
  rw [← isNaN_iff]
  show x.isNaN = true ↔ _
  rw [Float.isNaN_eq_decide_eq_nan, decide_eq_true_iff]

/-! Finite numbers. -/

theorem isFinite_unpack {spec : Format} {b : BitVec spec.numBits} :
    (UnpackedFloat.unpack spec b).isFinite ↔ unpackExponent b ≠ -1#_ := by
  unfold UnpackedFloat.unpack
  simp only
  split
  · rename_i largest
    split <;> simp [UnpackedFloat.isFinite, largest]
  · rename_i smaller
    refine ⟨fun _ => smaller, fun _ => ?_⟩
    split
    · split <;> rfl
    · rfl

theorem isFinite_iff : x.isFinite ↔ magnitude x < infinityBits := by
  have largest : @unpackExponent .binary64 x.toBits.toBitVec = -1#_ ↔
      x.toBits.toNat / 2 ^ 52 % 2 ^ 11 = 2047 := by
    rw [← BitVec.toNat_inj, toNat_unpackExponent]
    rfl
  show (UnpackedFloat.unpack .binary64 x.toBits.toBitVec).isFinite = true ↔ _
  rw [isFinite_unpack, ne_eq, largest]
  unfold magnitude infinityBits
  simp only [Nat.pow_eq]
  omega

theorem special_of_isFinite {u : UnpackedFloat} (finite : u.isFinite) :
    u.isNaN = false ∧ u.isInf = false := by
  cases u with
  | notANumber | infinity => contradiction
  | zero | finite => exact ⟨rfl, rfl⟩

theorem isNaN_of_isFinite (finite : x.isFinite) : x.isNaN = false :=
  (special_of_isFinite (show x.toModel.unpack.isFinite from finite)).1

theorem isInf_of_isFinite (finite : x.isFinite) : x.isInf = false :=
  (special_of_isFinite (show x.toModel.unpack.isFinite from finite)).2

theorem ne_nan_of_isFinite (finite : x.isFinite) : x ≠ .nan := by
  have number := isNaN_of_isFinite finite
  rwa [Float.isNaN_eq_decide_eq_nan, decide_eq_false_iff_not] at number

/-! Signs. -/

theorem magnitude_ofBits {bits : Nat} (finite : bits < infinityBits) :
    magnitude (Float.ofBits (UInt64.ofNat bits)) = bits ∧
      isNegative (Float.ofBits (UInt64.ofNat bits)) = false := by
  have bound : bits < 2047 * 2 ^ 52 := finite
  have word : (UInt64.ofNat bits).toNat = bits := by
    rw [UInt64.toNat_ofNat']
    exact Nat.mod_eq_of_lt (by omega)
  unfold magnitude isNegative
  rw [toBits_ofBits (by rw [word]; exact finite), word, decide_eq_false_iff_not]
  simp only [Nat.pow_eq]
  omega

theorem eq_of_magnitude_eq (same : magnitude x = magnitude y)
    (sign : isNegative x = isNegative y) : x = y := by
  have bound := x.toBits.toNat_lt
  have bound' := y.toBits.toNat_lt
  unfold magnitude at same
  unfold isNegative at sign
  rw [decide_eq_decide] at sign
  simp only [Nat.pow_eq] at same sign
  apply Float.toBits_inj.mp
  apply UInt64.toNat_inj.mp
  omega

theorem ofBits_magnitude (unsigned : isNegative x = false) :
    Float.ofBits (UInt64.ofNat (magnitude x)) = x := by
  have word : UInt64.ofNat (magnitude x) = x.toBits := by
    have bound := x.toBits.toNat_lt
    unfold magnitude
    unfold isNegative at unsigned
    rw [decide_eq_false_iff_not] at unsigned
    simp only [Nat.pow_eq] at unsigned ⊢
    apply UInt64.toNat_inj.mp
    rw [UInt64.toNat_ofNat']
    omega
  rw [word, Float.ofBits_toBits]

theorem exists_pack_neg {u : UnpackedFloat} (number : u ≠ .notANumber) :
    ∃ sign exponent mantissa, u.pack .binary64 = packComponents .binary64 sign exponent mantissa ∧
      u.neg.pack .binary64 = packComponents .binary64 (-sign) exponent mantissa := by
  cases u with
  | notANumber => contradiction
  | infinity s => exact ⟨s, _, _, rfl, rfl⟩
  | zero s => exact ⟨s, _, _, rfl, rfl⟩
  | finite s m e positive =>
    simp only [UnpackedFloat.neg, UnpackedFloat.pack]
    split
    · exact ⟨s, _, _, rfl, rfl⟩
    · split
      · exact ⟨s, _, _, rfl, rfl⟩
      · exact ⟨s, _, _, rfl, rfl⟩

theorem exists_toNat_packComponents (exponent : BitVec 11) (mantissa : BitVec 52) :
    ∃ fields < 2 ^ 63, ∀ sign : Sign, (packComponents .binary64 sign exponent mantissa).toNat =
      sign.toBitVec.toNat * 2 ^ 63 + fields := by
  have low := mantissa.isLt
  have high := exponent.isLt
  refine ⟨exponent.toNat * 2 ^ 52 + mantissa.toNat, by omega, fun sign => ?_⟩
  show (sign.toBitVec ++ exponent ++ mantissa).toNat = _
  rw [BitVec.toNat_append, BitVec.toNat_append, ← Nat.shiftLeft_add_eq_or_of_lt high,
    ← Nat.shiftLeft_add_eq_or_of_lt low]
  simp only [Nat.shiftLeft_eq]
  omega

theorem bits_neg (number : x ≠ .nan) :
    magnitude (-x) = magnitude x ∧ isNegative (-x) = !isNegative x := by
  obtain ⟨sign, exponent, mantissa, same, turned⟩ :=
    exists_pack_neg (mt unpack_eq_notANumber.mp number)
  obtain ⟨fields, bound, packed⟩ := exists_toNat_packComponents exponent mantissa
  have bits : x.toBits.toNat = sign.toBitVec.toNat * 2 ^ 63 + fields := by
    rw [← packed, ← same, ← UInt64.toNat_toBitVec]
    exact congrArg _ (pack_unpack_of_valid x.toModel.valid).symm
  have turnedBits : (-x).toBits.toNat = (-sign).toBitVec.toNat * 2 ^ 63 + fields := by
    rw [← packed, ← turned]
    rfl
  have opposite : sign.toBitVec.toNat + (-sign).toBitVec.toNat = 1 := by
    cases sign <;> rfl
  unfold magnitude isNegative
  rw [bits, turnedBits, ← decide_not, decide_eq_decide]
  simp only [Nat.pow_eq]
  omega

theorem isFinite_neg (finite : x.isFinite) : (-x).isFinite := by
  rw [isFinite_iff, (bits_neg (ne_nan_of_isFinite finite)).1]
  exact isFinite_iff.mp finite

theorem neg_neg_of_isFinite (finite : x.isFinite) : - -x = x := by
  obtain ⟨magnitude, sign⟩ := bits_neg (ne_nan_of_isFinite finite)
  obtain ⟨magnitude', sign'⟩ := bits_neg (ne_nan_of_isFinite (isFinite_neg finite))
  exact eq_of_magnitude_eq (magnitude'.trans magnitude) (by rw [sign', sign, Bool.not_not])

end Spreadsheet.Number
