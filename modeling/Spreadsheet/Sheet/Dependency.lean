import Spreadsheet.Graph.BreadthFirst
import Spreadsheet.Graph.DepthFirst
import Spreadsheet.Sheet.Error

/-! The dependency graph: its edges lead from a cell to the cells that read it, which are among
its subscribers. -/
namespace Spreadsheet.Sheet

def circular (s : Sheet) (cell : CellId) (path : List CellId) : SheetError :=
  .circular (s.position cell) (path.map s.position)

/-- `roots` and all cells that depend on them, each after the cells that it reads. -/
def dependencyOrder (s : Sheet) (roots : List CellId) : Except SheetError (List CellId) :=
  match Graph.topologicalOrder s.dependents s.cells.ids roots with
  | .ok order => .ok order
  | .error path => .error (s.circular (path.getLast?.getD ⟨0⟩) path)

/-- A shortest chain of dependents. -/
def dependencyPath (s : Sheet) (source target : CellId) : List CellId :=
  (Graph.shortestPath? s.dependents s.cells.ids.length source target).getD [source, target]

/-- Let `id` subscribe to `precedents` instead of those that its formula has now. -/
def rewire (s : Sheet) (id : CellId) (precedents : List CellId) : Sheet :=
  let old := ((s.cells.get? id).map (·.formula.precedents)).getD []
  let detached := (old.filter (· ∉ precedents)).foldl
    (fun s p => s.modifyCell p (·.detach (.cell id))) s
  precedents.foldl (fun s p => s.modifyCell p (·.attach (.cell id))) detached

end Spreadsheet.Sheet
