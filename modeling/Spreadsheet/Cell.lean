import Spreadsheet.Formula

/-! Cells and those who are told when they change. -/
namespace Spreadsheet

structure ListenerId where
  index : Nat
deriving DecidableEq, Repr

/-- A cell that reads this one, or a listener from outside the sheet. -/
inductive Subscriber where
  | cell (id : CellId)
  | listener (id : ListenerId)
deriving DecidableEq, Repr

/-- The text last typed, the formula it stands for and that formula's last value, with the
subscribers in the order of their registration. -/
structure Cell where
  raw : String
  formula : Formula
  value : Value
  subscribers : List Subscriber
deriving DecidableEq

namespace Cell

def empty : Cell := ⟨"", .empty, .empty, []⟩

instance : Inhabited Cell := ⟨empty⟩

/-- A subscriber that is registered already keeps its place. -/
def attach (s : Subscriber) (c : Cell) : Cell :=
  if s ∈ c.subscribers then c else { c with subscribers := c.subscribers ++ [s] }

def detach (s : Subscriber) (c : Cell) : Cell :=
  { c with subscribers := c.subscribers.erase s }

def store (raw : String) (formula : Formula) (value : Value) (c : Cell) : Cell :=
  { c with raw, formula, value }

/-- Evaluate the formula anew. -/
def recompute (values : CellId → Option Value) (c : Cell) : Cell :=
  { c with value := c.formula.evaluate values }

/-- Whether the cell reads other cells. -/
def isFormula (c : Cell) : Bool := c.formula.hasReferences

def dependents (c : Cell) : List CellId :=
  c.subscribers.filterMap fun
    | .cell id => some id
    | .listener _ => none

def listeners (c : Cell) : List ListenerId :=
  c.subscribers.filterMap fun
    | .cell _ => none
    | .listener id => some id

theorem mem_attach {s t : Subscriber} {c : Cell} :
    t ∈ (c.attach s).subscribers ↔ t = s ∨ t ∈ c.subscribers := by
  grind [attach]

theorem nodup_attach {s : Subscriber} {c : Cell} (h : c.subscribers.Nodup) :
    (c.attach s).subscribers.Nodup := by
  unfold attach; split
  · exact h
  · exact List.nodup_append.mpr ⟨h, by simp, by grind⟩

theorem mem_detach {s t : Subscriber} {c : Cell} (h : c.subscribers.Nodup) :
    t ∈ (c.detach s).subscribers ↔ t ≠ s ∧ t ∈ c.subscribers := by
  simp [detach, h.mem_erase_iff]

theorem mem_dependents {c : Cell} {id : CellId} : id ∈ c.dependents ↔ .cell id ∈ c.subscribers := by
  simp only [dependents, List.mem_filterMap]
  constructor
  · rintro ⟨s, hs, h⟩; cases s <;> simp_all
  · exact fun h => ⟨_, h, rfl⟩

end Cell
end Spreadsheet
