import Spreadsheet.Address
import Spreadsheet.Proofs.ColumnLabels

/-! The text of an address reads back as that address. -/
namespace Spreadsheet

namespace Address

/-- Both coordinates can be written and read back. -/
structure IsWritable (a : Address) : Prop where
  column : a.column + 1 < indexLimit
  row : a.row + 1 < indexLimit

theorem digits?_toDigits {n : Nat} (bound : n < indexLimit) :
    Text.digits? (Nat.toDigits 10 n) = some n := by
  unfold Text.digits?
  simp only [Nat.ofDigitChars_ten_toDigits]
  exact if_pos ⟨Nat.toDigits_ne_nil, List.all_eq_true.mpr Text.isDigit_of_mem_toDigits, bound⟩

private theorem isAlpha_of_isUpper {c : Char} (h : c.isUpper) : c.isAlpha := by
  simp [Char.isAlpha, h]

theorem not_isAlpha_of_isDigit {c : Char} (h : c.isDigit) : c.isAlpha = false := by
  simp only [Char.isAlpha, Char.isUpper, Char.isLower, Char.isDigit] at *
  grind

/-- The digits of a number stop any run of letters. -/
theorem stops_toDigits {p : Char → Bool} (n : Nat) (letters : ∀ c, c.isDigit → p c = false) :
    Text.Stops p (Nat.toDigits 10 n) :=
  fun _ h => letters _ (Text.isDigit_of_mem_toDigits _ (List.mem_of_mem_head? h))

theorem ofChars?_toChars {a : Address} (writable : a.IsWritable) :
    ofChars? a.toChars = some a := by
  have letters : ∀ c ∈ Column.label a.column, c.isAlpha :=
    fun c h => isAlpha_of_isUpper (Column.isUpper_of_mem_label _ c h)
  have stop := stops_toDigits (p := Char.isAlpha) (a.row + 1)
    fun c h => not_isAlpha_of_isDigit h
  unfold ofChars? toChars
  rw [Text.takeWhile_run letters stop, Text.dropWhile_run letters stop,
    Column.map_toUpper_label, Column.ofLabel?_label writable.column,
    digits?_toDigits writable.row]
  rfl

end Address
end Spreadsheet
