import Spreadsheet.Sheet.Dependency
import Spreadsheet.Sheet.Outcome

/-! Recomputing cells one after the other, and calling their listeners. -/
namespace Spreadsheet.Sheet

/-- The cell with its value as the other cells are now. -/
def recomputed? (s : Sheet) (id : CellId) : Option Cell :=
  (s.cells.get? id).map (·.recompute s.cells.valueOf)

def recompute (s : Sheet) (id : CellId) : Sheet :=
  match s.recomputed? id with
  | none => s
  | some c => { s with cells := s.cells.set id c }

/-- Whether recomputing the cell changes its value. -/
def changes (s : Sheet) (id : CellId) : Bool :=
  match s.cells.valueOf id, s.recomputed? id with
  | some old, some c => !old.agrees c.value
  | _, _ => false

/-- The calls due when `id` has changed, in the order of the subscriptions. -/
def callsFor (s : Sheet) (id : CellId) : List Call :=
  (((s.cells.get? id).map Cell.listeners).getD []).filterMap fun l =>
    if s.listeners.any (·.1 == l) then some ⟨l, id, s.cells⟩ else none

/-- Recompute cells one after the other and call the listeners of each. -/
def refresh (s : Sheet) : List CellId → Sheet × List Call
  | [] => (s, [])
  | id :: rest =>
    let t := s.recompute id
    let due := t.callsFor id
    let (u, calls) := t.refresh rest
    (u, due ++ calls)

/-- As `refresh`, but a cell that keeps its value calls no listener. -/
def refreshChanged (s : Sheet) : List CellId → Sheet × List Call
  | [] => (s, [])
  | id :: rest =>
    let changed := s.changes id
    let t := s.recompute id
    let due := if changed then t.callsFor id else []
    let (u, calls) := t.refreshChanged rest
    (u, due ++ calls)

/-- Recompute every cell. -/
def recalculate (s : Sheet) : Outcome Unit :=
  match s.dependencyOrder s.cells.ids with
  | .error e => s.failed e
  | .ok order =>
    let (t, calls) := s.refreshChanged order
    ⟨t, calls, .ok ()⟩

end Spreadsheet.Sheet
