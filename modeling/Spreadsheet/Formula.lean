import Spreadsheet.Value

/-! Formulas: trees over numbers, texts, cells and aggregates of ranges, and their values. -/
namespace Spreadsheet

/-- A lasting name of a cell, whatever its position. -/
structure CellId where
  index : Nat
deriving DecidableEq, Repr

inductive BinaryOp where
  | add | sub | mul | div | pow
deriving DecidableEq, Repr

inductive Aggregate where
  | sum | average | maximum | minimum
deriving DecidableEq, Repr

/-- A range lists its cells row by row; it has at least one. -/
inductive Formula where
  | number (n : Float)
  | text (s : String)
  | reference (cell : CellId)
  | range (op : Aggregate) (first : CellId) (rest : List CellId)
  | negate (operand : Formula)
  | binary (op : BinaryOp) (left right : Formula)
deriving DecidableEq

namespace BinaryOp

def symbol : BinaryOp → Char
  | add => '+'
  | sub => '-'
  | mul => '*'
  | div => '/'
  | pow => '^'

def apply : BinaryOp → Float → Float → Float
  | add, x, y => x + y
  | sub, x, y => x - y
  | mul, x, y => x * y
  | div, x, y => x / y
  | pow, x, y => x.pow y

end BinaryOp

namespace Aggregate

def name : Aggregate → String
  | sum => "SUM"
  | average => "AVG"
  | maximum => "MAX"
  | minimum => "MIN"

def ofName? (s : String) : Option Aggregate :=
  [sum, average, maximum, minimum].find? (·.name == s)

/-- Sums start from the negative zero, the neutral element of addition. -/
def total (numbers : List Float) : Float :=
  numbers.foldl (· + ·) (Float.ofBits 0x8000000000000000)

/-- Extremes start from the first number and change only for one that compares as better, so a
NaN counts only in front. -/
def apply (op : Aggregate) (first : Float) (rest : List Float) : Float :=
  match op with
  | sum => total (first :: rest)
  | average => total (first :: rest) / Float.ofNat (rest.length + 1)
  | maximum => rest.foldl (fun best n => if best < n then n else best) first
  | minimum => rest.foldl (fun best n => if n < best then n else best) first

end Aggregate

namespace Formula

def empty : Formula := .text ""

instance : Inhabited Formula := ⟨empty⟩

/-- No aggregate of no cells. -/
def range? (op : Aggregate) : List CellId → Option Formula
  | [] => none
  | first :: rest => some (.range op first rest)

/-- A cell without a value reads as an empty text, in a range as zero. -/
def evaluate (values : CellId → Option Value) : Formula → Value
  | number n => .number n
  | text s => .text s
  | reference cell => (values cell).getD .empty
  | range op first rest =>
    let numberOf (cell : CellId) : Float := ((values cell).map Value.asNumber).getD 0
    .number (op.apply (numberOf first) (rest.map numberOf))
  | negate operand => .number (-(operand.evaluate values).asNumber)
  | binary op left right =>
    .number (op.apply (left.evaluate values).asNumber (right.evaluate values).asNumber)

/-- The cells that the formula names, from left to right. -/
def cells : Formula → List CellId
  | number _ | text _ => []
  | reference cell => [cell]
  | range _ first rest => first :: rest
  | negate operand => operand.cells
  | binary _ left right => left.cells ++ right.cells

/-- The cells that the formula reads, each once, in order of first appearance. -/
def precedents (f : Formula) : List CellId := f.cells.eraseDups

def hasReferences : Formula → Bool
  | number _ | text _ => false
  | reference _ | range .. => true
  | negate operand => operand.hasReferences
  | binary _ left right => left.hasReferences || right.hasReferences

/-- The height of the tree; a leaf has depth one. -/
def depth : Formula → Nat
  | number _ | text _ | reference _ | range .. => 1
  | negate operand => operand.depth + 1
  | binary _ left right => max left.depth right.depth + 1

theorem mem_precedents {f : Formula} {id : CellId} : id ∈ f.precedents ↔ id ∈ f.cells :=
  List.mem_eraseDups

theorem hasReferences_iff {f : Formula} : f.hasReferences ↔ f.cells ≠ [] := by
  induction f with
  | number | text | reference | range => simp [hasReferences, cells]
  | negate operand ih => exact ih
  | binary op left right hl hr =>
    simp only [hasReferences, Bool.or_eq_true, hl, hr, cells, ne_eq, List.append_eq_nil_iff]
    exact Decidable.not_and_iff_or_not.symm

end Formula
end Spreadsheet
