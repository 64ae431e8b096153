import Spreadsheet.Proofs.FloatBits
import Spreadsheet.Value

/-! How numbers compare. Doubles other than NaN are ranked, and only the two zeros share a rank; as
values they are the same, and so is NaN with itself. -/
namespace Spreadsheet

namespace Number
open Float.Model UnpackedFloat

/-- By class first, then by exponent and significand; NaN has no rank of its own. -/
def rankOf : UnpackedFloat → ℤ ×ₗ ℤ ×ₗ ℤ
  | .infinity .negative => toLex (-2, toLex (0, 0))
  | .finite .negative m e _ => toLex (-1, toLex (-e, -m))
  | .notANumber | .zero _ => toLex (0, toLex (0, 0))
  | .finite .positive m e _ => toLex (1, toLex (e, m))
  | .infinity .positive => toLex (2, toLex (0, 0))

def rank (x : Float) : ℤ ×ₗ ℤ ×ₗ ℤ := rankOf x.toModel.unpack

private theorem compare_toLex {α β : Type} [Ord α] [Ord β] (a c : α) (b d : β) :
    compare (toLex (a, b)) (toLex (c, d)) = (compare a c).then (compare b d) := by
  rw [Prod.Lex.compare_def]
  rfl

private theorem compare_neg (a b : ℤ) : compare (-a) (-b) = (compare a b).swap := by
  have turned : StrictAnti fun n : ℤ => -n := fun _ _ less => neg_lt_neg less
  rw [← cmp_eq_compare, turned.cmp_map_eq, cmp_eq_compare, Int.compare_swap]

private theorem compare_natCast (m n : ℕ) : compare (m : ℤ) n = compare m n := by
  rw [← cmp_eq_compare, Nat.strictMono_cast.cmp_map_eq, cmp_eq_compare]

/-- For negative numbers the larger exponent and the larger significand come first. -/
theorem compare_eq_compare_rankOf {a b : UnpackedFloat} (ha : a ≠ .notANumber)
    (hb : b ≠ .notANumber) : a.compare b = some (compare (rankOf a) (rankOf b)) := by
  cases a with
  | notANumber => contradiction
  | infinity s =>
    cases b with
    | notANumber => contradiction
    | infinity t => cases s <;> cases t <;> rfl
    | zero t => cases s <;> rfl
    | finite t n f hn => cases s <;> cases t <;> rfl
  | zero s =>
    cases b with
    | notANumber => contradiction
    | infinity t => cases t <;> rfl
    | zero t => rfl
    | finite t n f hn => cases t <;> rfl
  | finite s m e hm =>
    cases b with
    | notANumber => contradiction
    | infinity t => cases s <;> cases t <;> rfl
    | zero t => cases s <;> rfl
    | finite t n f hn =>
      cases s <;> cases t
      case negative.negative =>
        simp only [UnpackedFloat.compare, rankOf, compare_toLex, compare_neg, compare_natCast,
          Ordering.swap_then]
        rfl
      case positive.positive =>
        simp only [UnpackedFloat.compare, rankOf, compare_toLex, compare_natCast]
        rfl
      case negative.positive => rfl
      case positive.negative => rfl

variable {x y z : Float}

theorem lt_iff : x < y ↔ x ≠ .nan ∧ y ≠ .nan ∧ rank x < rank y := by
  have compared : x < y ↔ x.toModel.unpack.compare y.toModel.unpack = some .lt := by
    show decide (x.toModel < y.toModel) = true ↔ _
    rw [decide_eq_true_iff]
    exact beq_iff_eq
  rw [compared, ne_eq, ne_eq, ← unpack_eq_notANumber, ← unpack_eq_notANumber]
  constructor
  · intro less
    have left : x.toModel.unpack ≠ .notANumber := by
      intro same
      rw [same] at less
      cases less
    have right : y.toModel.unpack ≠ .notANumber := by
      intro same
      rw [same] at less
      cases unpacked : x.toModel.unpack <;> rw [unpacked] at less <;> cases less
    rw [compare_eq_compare_rankOf left right, Option.some_inj, compare_lt_iff_lt] at less
    exact ⟨left, right, less⟩
  · rintro ⟨left, right, less⟩
    rw [compare_eq_compare_rankOf left right, Option.some_inj, compare_lt_iff_lt]
    exact less

theorem beq_of_rank_eq (hx : x ≠ .nan) (hy : y ≠ .nan) (same : rank x = rank y) : x == y := by
  show (x.toModel.unpack.compare y.toModel.unpack == some .eq) = true
  rw [ne_eq, ← unpack_eq_notANumber] at hx hy
  rw [compare_eq_compare_rankOf hx hy, beq_iff_eq, Option.some_inj, compare_eq_iff_eq]
  exact same

end Number

namespace Value

def nan : Value := .number Float.nan

def IsZero (v : Value) : Prop := v = .number 0 ∨ v = .number (-0)

/-- Equal but for the sign of a zero. -/
def Same (v w : Value) : Prop := v = w ∨ v.IsZero ∧ w.IsZero

theorem same_number {m n : Float} :
    (number m).Same (number n) ↔ m = n ∨ m = 0 ∧ n = -0 ∨ m = -0 ∧ n = 0 := by
  simp only [Same, IsZero, number.injEq]
  constructor
  · rintro (same | ⟨rfl | rfl, rfl | rfl⟩)
    · exact .inl same
    · exact .inl rfl
    · exact .inr (.inl ⟨rfl, rfl⟩)
    · exact .inr (.inr ⟨rfl, rfl⟩)
    · exact .inl rfl
  · rintro (same | ⟨zero, zero'⟩ | ⟨zero, zero'⟩)
    · exact .inl same
    · exact .inr ⟨.inl zero, .inr zero'⟩
    · exact .inr ⟨.inr zero, .inl zero'⟩

theorem Same.symm {v w : Value} (same : v.Same w) : w.Same v :=
  same.imp Eq.symm And.symm

theorem not_isZero_nan : ¬ nan.IsZero := by
  unfold IsZero
  decide +kernel

theorem same_nan {w : Value} : nan.Same w ↔ w = nan := by
  constructor
  · rintro (same | ⟨zero, -⟩)
    · exact same.symm
    · exact absurd zero not_isZero_nan
  · exact fun same => .inl same.symm

/-- The comparison takes NaN for other than itself. -/
theorem agrees_iff {v w : Value} : v.agrees w ↔ v.Same w ∧ v ≠ nan ∧ w ≠ nan := by
  cases v with
  | number m =>
    cases w with
    | number n =>
      simp only [agrees, Float.beq_iff_ne_nan_and_eq, same_number, nan, ne_eq, number.injEq]
      tauto
    | text t => simp [agrees, Same, IsZero]
  | text s =>
    cases w with
    | number n => simp [agrees, Same, IsZero]
    | text t => simp [agrees, Same, IsZero, nan]

theorem same_of_beq {m n : Float} (equal : m == n) : (number m).Same (number n) :=
  have agree : (number m).agrees (number n) := equal
  (agrees_iff.mp agree).1

theorem not_agrees_iff {v w : Value} : v.agrees w = false ↔ ¬ v.Same w ∨ v = nan ∧ w = nan := by
  rw [← Bool.not_eq_true, agrees_iff]
  constructor
  · intro other
    by_cases same : v.Same w
    · refine .inr ?_
      by_contra number
      refine other ⟨same, ?_, ?_⟩
      · rintro rfl
        exact number ⟨rfl, same_nan.mp same⟩
      · rintro rfl
        rcases same with rfl | ⟨-, zero⟩
        · exact number ⟨rfl, rfl⟩
        · exact not_isZero_nan zero
    · exact .inl same
  · rintro (other | ⟨rfl, rfl⟩) ⟨same, number, -⟩
    · exact other same
    · exact number rfl

end Value

end Spreadsheet
