import Spreadsheet.Proofs.AddressText
import Spreadsheet.Proofs.Numerals

/-! The spellings of an address: letters of either case, and zeros in front of the row. Of these the
one in capitals and without such zeros is its text. -/
namespace Spreadsheet

namespace Address

variable {s t letters digits letters' digits' : List Char} {a b : Address}

/-- Letters and behind them digits, at least one of each. -/
structure Spelled (s letters digits : List Char) : Prop where
  parts : s = letters ++ digits
  letters_ne_nil : letters ≠ []
  isAlpha : ∀ c ∈ letters, c.isAlpha
  digits_ne_nil : digits ≠ []
  isDigit : ∀ c ∈ digits, c.isDigit

theorem Spelled.split (spelled : Spelled s letters digits) :
    s.takeWhile Char.isAlpha = letters ∧ s.dropWhile Char.isAlpha = digits := by
  have stop : Text.Stops Char.isAlpha digits := fun c first =>
    not_isAlpha_of_isDigit (spelled.isDigit c (List.mem_of_mem_head? first))
  rw [spelled.parts]
  exact ⟨Text.takeWhile_run spelled.isAlpha stop, Text.dropWhile_run spelled.isAlpha stop⟩

/-- What can be read are the spellings of the addresses that can be written. -/
theorem ofChars?_eq_some : ofChars? s = some a ↔ a.IsWritable ∧ ∃ letters digits,
    Spelled s letters digits ∧ Column.label a.column = letters.map Char.toUpper ∧
      Nat.toDigits 10 (a.row + 1) = digits.dropWhile (· == '0') := by
  unfold ofChars?
  simp only [Option.bind_eq_bind, Option.bind_eq_some_iff, Text.digits?_eq_some,
    Column.ofLabel?_eq_some]
  constructor
  · rintro ⟨column, ⟨columnBound, label⟩, row, ⟨nonempty, all, number, rowBound⟩, read⟩
    split at read
    · cases read
    · rename_i nonzero
      cases read
      have whole : row - 1 + 1 = row := by omega
      refine ⟨⟨columnBound, whole.symm ▸ rowBound⟩, _, _,
        ⟨List.takeWhile_append_dropWhile.symm, ?_, ?_, nonempty, all⟩, label, ?_⟩
      · intro none
        rw [none] at label
        exact Column.label_ne_nil _ label
      · exact fun c member => List.mem_takeWhile_imp member
      · rw [whole, ← number, Text.toDigits_ofDigitChars_zero all (number.symm ▸ nonzero)]
  · rintro ⟨writable, letters, digits, spelled, label, number⟩
    obtain ⟨front, behind⟩ := spelled.split
    have row : Nat.ofDigitChars 10 digits 0 = a.row + 1 := by
      rw [← Text.ofDigitChars_dropWhile, ← number, Nat.ofDigitChars_ten_toDigits]
    rw [front, behind]
    refine ⟨a.column, ⟨writable.column, label⟩, a.row + 1,
      ⟨spelled.digits_ne_nil, spelled.isDigit, row, writable.row⟩, ?_⟩
    rw [if_neg (Nat.succ_ne_zero a.row)]
    rfl

/-- The same letters but for their case, and the same digits but for zeros in front. -/
def SpelledAlike (s t : List Char) : Prop :=
  ∃ letters digits letters' digits', Spelled s letters digits ∧ Spelled t letters' digits' ∧
    letters.map Char.toUpper = letters'.map Char.toUpper ∧
      digits.dropWhile (· == '0') = digits'.dropWhile (· == '0')

theorem Spelled.spelledAlike_iff (spelled : Spelled s letters digits)
    (spelled' : Spelled t letters' digits') : SpelledAlike s t ↔
      letters.map Char.toUpper = letters'.map Char.toUpper ∧
        digits.dropWhile (· == '0') = digits'.dropWhile (· == '0') := by
  obtain ⟨rfl, rfl⟩ := spelled.split
  obtain ⟨rfl, rfl⟩ := spelled'.split
  constructor
  · rintro ⟨letters, digits, letters', digits', again, again', same⟩
    obtain ⟨rfl, rfl⟩ := again.split
    obtain ⟨rfl, rfl⟩ := again'.split
    exact same
  · exact fun same => ⟨_, _, _, _, spelled, spelled', same⟩

theorem eq_iff_texts {a b : Address} : a = b ↔
    Column.label a.column = Column.label b.column ∧
      Nat.toDigits 10 (a.row + 1) = Nat.toDigits 10 (b.row + 1) := by
  obtain ⟨column, row⟩ := a
  obtain ⟨column', row'⟩ := b
  constructor
  · rintro same
    cases same
    exact ⟨rfl, rfl⟩
  · rintro ⟨labels, texts⟩
    have columns := congrArg Column.value labels
    have rows := congrArg (Nat.ofDigitChars 10 · 0) texts
    simp only [Column.value_label, Nat.ofDigitChars_ten_toDigits] at columns rows
    cases Nat.succ.inj columns
    cases Nat.succ.inj rows
    rfl

/-- The text of an address is its spelling in capitals and without zeros in front of the row. It can
be written and is read back, and spellings that differ in nothing else are those of one address. -/
theorem ofChars?_spelled (read : ofChars? s = some a) :
    (∃ letters digits, Spelled s letters digits ∧
      a.toChars = letters.map Char.toUpper ++ digits.dropWhile (· == '0')) ∧
    a.IsWritable ∧ ofChars? a.toChars = some a ∧
    ∀ t b, ofChars? t = some b → (a = b ↔ SpelledAlike s t) := by
  obtain ⟨writable, letters, digits, spelled, label, number⟩ := ofChars?_eq_some.mp read
  refine ⟨⟨letters, digits, spelled, ?_⟩, writable, ofChars?_toChars writable, ?_⟩
  · rw [toChars, label, number]
  · intro t b read'
    obtain ⟨-, letters', digits', spelled', label', number'⟩ := ofChars?_eq_some.mp read'
    rw [eq_iff_texts, spelled.spelledAlike_iff spelled', label, number, label', number']

/-- The last row, with small letters and zeros in front. -/
theorem ofChars?_spelled_sample :
    ofChars? "aB0018446744073709551615".toList = some ⟨27, 18446744073709551614⟩ ∧
    (Address.mk 27 18446744073709551614).IsWritable ∧
    ofChars? (Address.mk 27 18446744073709551614).toChars = some ⟨27, 18446744073709551614⟩ ∧
    SpelledAlike "aB0018446744073709551615".toList "Ab018446744073709551615".toList := by
  have read : ofChars? "aB0018446744073709551615".toList = some ⟨27, 18446744073709551614⟩ := by
    decide +kernel
  have read' : ofChars? "Ab018446744073709551615".toList = some ⟨27, 18446744073709551614⟩ := by
    decide +kernel
  obtain ⟨-, writable, back, same⟩ := ofChars?_spelled read
  exact ⟨read, writable, back, (same _ _ read').mp rfl⟩

end Address
end Spreadsheet
