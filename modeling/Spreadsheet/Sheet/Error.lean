import Spreadsheet.Sheet

/-! Why an operation on a sheet can fail. -/
namespace Spreadsheet

/-- Rows and columns are lines; indices of lines count from zero. -/
inductive Axis where
  | row | column
deriving DecidableEq, Repr

def Axis.name : Axis → String
  | row => "Row"
  | column => "Column"

inductive SheetError where
  | parse (cause : ParseError)
  /-- The edit of `cell` would close the cycle `path`. -/
  | circular (cell : Address) (path : List Address)
  | outside (address : Address)
  | noSuchLine (axis : Axis) (index : Nat)
  /-- A cell of a line to be deleted is read from outside the line. -/
  | referenced (cell dependent : Address)
  | unknownListener
deriving DecidableEq, Repr

def SheetError.message : SheetError → String
  | parse cause => "Parse error: " ++ cause.message
  | circular cell path =>
    s!"Circular reference at {cell}: " ++ String.intercalate " -> " (path.map toString)
  | outside address => s!"Cell {address} is outside the sheet"
  | noSuchLine axis index => axis.name ++ s!" {index} is outside the sheet"
  | referenced cell dependent => s!"Cannot delete {cell}: referenced by {dependent}"
  | unknownListener => "Unknown listener"

namespace Sheet

def idAt (s : Sheet) (a : Address) : Except SheetError CellId :=
  match s.idAt? a with
  | some id => .ok id
  | none => .error (.outside a)

def cellAt (s : Sheet) (a : Address) : Except SheetError Cell :=
  match s.cellAt? a with
  | some cell => .ok cell
  | none => .error (.outside a)

/-- The value of the formula as it would come out now; nothing is stored. -/
def evaluateAt (s : Sheet) (a : Address) : Except SheetError Value := do
  return (← s.cellAt a).formula.evaluate s.cells.valueOf

/-- The address of a cell on the sheet, for an error. -/
def position (s : Sheet) (id : CellId) : Address := (s.addressOf id).getD ⟨0, 0⟩

end Sheet
end Spreadsheet
