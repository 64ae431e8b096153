import Spreadsheet.Formula.Rendering
import Spreadsheet.Sheet.Recalculation

/-! Inserting and deleting rows and columns. Formulas follow the cells that they read, and a
range takes in what comes to lie between its corners. -/
namespace Spreadsheet.Sheet

/-- How many lines there are along an axis. -/
def lineCount (s : Sheet) : Axis → Nat
  | .row => s.height
  | .column => s.width

/-- A row from left to right or a column from top to bottom. -/
def line (s : Sheet) (axis : Axis) (i : Nat) : List CellId :=
  match axis with
  | .row => s.columns.filterMap (·[i]?)
  | .column => (s.columns[i]?).getD []

/-- Put a line of new empty cells before line `i`. -/
def insertCells (s : Sheet) (axis : Axis) (i : Nat) : Sheet :=
  match axis with
  | .row =>
    { s with
      cells := s.cells.allocate s.width
      columns := s.columns.zipWith (fun column id => column.insertIdx i id) (s.cells.nextIds s.width)
      height := s.height + 1 }
  | .column =>
    { s with
      cells := s.cells.allocate s.height
      columns := s.columns.insertIdx i (s.cells.nextIds s.height) }

/-- Take line `i` off the sheet, with its cells, their subscriptions and their listeners. -/
def deleteCells (s : Sheet) (axis : Axis) (i : Nat) : Sheet :=
  let doomed := s.line axis i
  let t := doomed.foldl (fun s id => s.rewire id []) s
  let u : Sheet :=
    { t with
      cells := doomed.foldl CellStore.erase t.cells
      listeners := t.listeners.filter (·.2 ∉ doomed) }
  match axis with
  | .row => { u with columns := u.columns.map (·.eraseIdx i), height := u.height - 1 }
  | .column => { u with columns := u.columns.eraseIdx i }

/-- The formulas whose text has changed since addresses were as in `before`, with the new
input and what it stands for. -/
def restatements (s : Sheet) (before : CellId → Option Address) :
    Except SheetError (List (CellId × String × Formula)) :=
  let stale := s.cells.ids.filterMap fun id => (s.cells.get? id).bind fun cell =>
    let text := cell.formula.render s.addressOf
    if cell.isFormula ∧ cell.formula.render before ≠ text then some (id, "=" ++ text) else none
  stale.mapM fun (id, raw) => do
    return (id, raw, ← (Formula.ofInput s.resolver raw).mapError .parse)

/-- Give a cell a new formula and keep its value. -/
def replaceFormula (s : Sheet) (id : CellId) (raw : String) (formula : Formula) : Sheet :=
  (s.rewire id formula.precedents).modifyCell id fun c => c.store raw formula c.value

/-- Bring the formulas in line with the new shape, then recompute the sheet. -/
def reflow (s : Sheet) (before : CellId → Option Address) : Outcome Unit :=
  match s.restatements before with
  | .error e => s.failed e
  | .ok new => (new.foldl (fun s (id, raw, formula) => s.replaceFormula id raw formula) s).recalculate

/-- Insert an empty line before line `i`, or behind the last. -/
def insertLine (s : Sheet) (axis : Axis) (i : Nat) : Outcome Unit :=
  if s.lineCount axis < i then s.failed (.noSuchLine axis i)
  else (s.insertCells axis i).reflow s.addressOf

/-- The first cell of a line that is read from outside it, with the first such reader. -/
def readFromOutside? (s : Sheet) (doomed : List CellId) : Option (CellId × CellId) :=
  doomed.findSome? fun id => ((s.dependents id).find? (· ∉ doomed)).map (id, ·)

/-- Delete line `i`, unless a cell outside it reads a cell inside it. -/
def deleteLine (s : Sheet) (axis : Axis) (i : Nat) : Outcome Unit :=
  if s.lineCount axis ≤ i then s.failed (.noSuchLine axis i)
  else match s.readFromOutside? (s.line axis i) with
    | some (cell, reader) => s.failed (.referenced (s.position cell) (s.position reader))
    | none => (s.deleteCells axis i).reflow s.addressOf

end Spreadsheet.Sheet
