import Spreadsheet.Sheet.Recalculation

/-! Typing into a cell, and watching one. -/
namespace Spreadsheet.Sheet

/-- The cell at the address, the formula that `raw` stands for, and what is to be recomputed,
the cell itself first. A formula that reads any of that would close a cycle. -/
def prepareInput (s : Sheet) (a : Address) (raw : String) :
    Except SheetError (CellId × Formula × List CellId) := do
  let id ← s.idAt a
  let formula ← (Formula.ofInput s.resolver raw).mapError .parse
  let order ← s.dependencyOrder [id]
  match formula.precedents.find? (· ∈ order) with
  | some looped => throw (s.circular id (s.dependencyPath id looped ++ [id]))
  | none => return (id, formula, order)

/-- Store the formula with its value, under new subscriptions. -/
def storeInput (s : Sheet) (id : CellId) (raw : String) (formula : Formula) : Sheet :=
  let t := s.rewire id formula.precedents
  t.modifyCell id (·.store raw formula (formula.evaluate t.cells.valueOf))

/-- Type a text into a cell and bring all that depends on it up to date. -/
def setInput (s : Sheet) (a : Address) (raw : String) : Outcome Unit :=
  match s.prepareInput a raw with
  | .error e => s.failed e
  | .ok (id, formula, order) =>
    let t := s.storeInput id raw formula
    let (u, calls) := t.refresh order.tail
    ⟨u, t.callsFor id ++ calls, .ok ()⟩

def clear (s : Sheet) (a : Address) : Outcome Unit := s.setInput a ""

/-- Watch a cell; the listener's number is new. -/
def subscribe (s : Sheet) (a : Address) : Outcome ListenerId :=
  match s.idAt a with
  | .error e => s.failed e
  | .ok id =>
    let l : ListenerId := ⟨s.nextListener⟩
    let t := s.modifyCell id (·.attach (.listener l))
    done { t with listeners := t.listeners ++ [(l, id)], nextListener := t.nextListener + 1 } l

def unsubscribe (s : Sheet) (l : ListenerId) : Outcome Unit :=
  match s.listeners.find? (·.1 == l) with
  | none => s.failed .unknownListener
  | some (_, id) =>
    let t := s.modifyCell id (·.detach (.listener l))
    done { t with listeners := t.listeners.filter (·.1 != l) } ()

end Spreadsheet.Sheet
