import Spreadsheet.Sheet.Error

/-! What an operation on a sheet leaves behind. -/
namespace Spreadsheet

/-- A call of a listener: the cell that it watches, and all cells as they were at the call. -/
structure Call where
  listener : ListenerId
  cell : CellId
  seen : CellStore

/-- What an operation leaves behind, also when it fails. -/
structure Outcome (α : Type) where
  sheet : Sheet
  calls : List Call
  result : Except SheetError α

namespace Sheet

def failed {α : Type} (s : Sheet) (e : SheetError) : Outcome α := ⟨s, [], .error e⟩

def done {α : Type} (s : Sheet) (a : α) : Outcome α := ⟨s, [], .ok a⟩

end Sheet
end Spreadsheet
