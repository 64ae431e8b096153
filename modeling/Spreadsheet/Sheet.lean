import Spreadsheet.CellStore
import Spreadsheet.Formula.Parser

/-! A sheet: a rectangle of cells, and the listeners from outside that watch them. -/
namespace Spreadsheet

/-- Cells are laid out in columns of one height. Listeners stand with the cell they watch,
oldest first; the number of the next one is `nextListener`. -/
structure Sheet where
  cells : CellStore
  columns : List (List CellId)
  height : Nat
  listeners : List (ListenerId × CellId)
  nextListener : Nat

namespace Sheet

def defaultWidth : Nat := 10
def defaultHeight : Nat := 20

/-- Empty cells, with identifiers handed out column by column. -/
def ofSize (width height : Nat) : Sheet where
  cells := (CellStore.mk #[]).allocate (width * height)
  columns := (List.range width).map fun c => (List.range height).map fun r => ⟨c * height + r⟩
  height := height
  listeners := []
  nextListener := 0

def width (s : Sheet) : Nat := s.columns.length

def idAt? (s : Sheet) (a : Address) : Option CellId := (s.columns[a.column]?).bind (·[a.row]?)

def cellAt? (s : Sheet) (a : Address) : Option Cell := (s.idAt? a).bind s.cells.get?

/-- Where a cell is now; a deleted one has no address. -/
def addressOf (s : Sheet) (id : CellId) : Option Address :=
  s.columns.zipIdx.findSome? fun (column, c) => (column.idxOf? id).map fun r => ⟨c, r⟩

/-- All cells between two corners, row by row, whichever corners they are. -/
def rectangle (s : Sheet) (first last : Address) : List CellId :=
  let rows := List.range' (min first.row last.row)
    (max first.row last.row - min first.row last.row + 1)
  let columns := List.range' (min first.column last.column)
    (max first.column last.column - min first.column last.column + 1)
  rows.flatMap fun row => columns.filterMap fun column => s.idAt? ⟨column, row⟩

/-- A rectangle is on the sheet when its corners are. -/
def resolver (s : Sheet) : Resolver where
  cell := s.idAt?
  range first last :=
    if (s.idAt? first).isSome ∧ (s.idAt? last).isSome then some (s.rectangle first last)
    else none

def modifyCell (s : Sheet) (id : CellId) (f : Cell → Cell) : Sheet :=
  { s with cells := s.cells.modify id f }

/-- The cells that read this one, in the order in which they began to. -/
def dependents (s : Sheet) (id : CellId) : List CellId :=
  ((s.cells.get? id).map Cell.dependents).getD []

end Sheet
end Spreadsheet
