/-! Decimal natural numbers as they are written in addresses, sizes and commands. -/
namespace Spreadsheet

/-- Positions and sizes are below this bound. -/
def indexLimit : Nat := UInt64.size

namespace Text

/-- One or more decimal digits whose number is below `indexLimit`; leading zeros are free. -/
def digits? (s : List Char) : Option Nat :=
  let n := Nat.ofDigitChars 10 s 0
  if s ≠ [] ∧ s.all Char.isDigit ∧ n < indexLimit then some n else none

/-- As `digits?`, and one plus sign may stand in front. -/
def natural? : List Char → Option Nat
  | '+' :: s => digits? s
  | s => digits? s

end Text
end Spreadsheet
