import Spreadsheet.Address.Column

/-! Cell addresses such as `AB12`: letters for the column, then the row counted from one. -/
namespace Spreadsheet

/-- Both coordinates count from zero. -/
structure Address where
  column : Nat
  row : Nat
deriving DecidableEq, Repr

namespace Address

def toChars (a : Address) : List Char := Column.label a.column ++ Nat.toDigits 10 (a.row + 1)

instance : ToString Address := ⟨fun a => String.ofList a.toChars⟩

/-- Letters of either case and a row from one up; leading zeros of the row are free. -/
def ofChars? (s : List Char) : Option Address := do
  let column ← Column.ofLabel? ((s.takeWhile Char.isAlpha).map Char.toUpper)
  let row ← Text.digits? (s.dropWhile Char.isAlpha)
  if row = 0 then none else some ⟨column, row - 1⟩

end Address
end Spreadsheet
