import Spreadsheet.Address
import Spreadsheet.Formula

/-! The text of a formula, with no parentheses but those the grammar needs. -/
namespace Spreadsheet.Formula

/-- How tightly the outermost operator binds. -/
def precedence : Formula → Nat
  | binary .add .. | binary .sub .. => 1
  | binary .mul .. | binary .div .. => 2
  | negate _ => 3
  | binary .pow .. => 4
  | _ => 5

def addressChars (addressOf : CellId → Option Address) (cell : CellId) : List Char :=
  match addressOf cell with
  | some a => a.toChars
  | none => "#REF!".toList

def parenthesized (needed : Bool) (s : List Char) : List Char :=
  if needed then '(' :: s ++ [')'] else s

/-- A left operand of `op` that binds looser than this needs parentheses: the base of a power
must be a leaf. -/
def leftBound : BinaryOp → Nat
  | .add | .sub => 1
  | .mul | .div => 2
  | .pow => 5

/-- A right operand of `op` that binds looser than this needs parentheses: chains of one
precedence lean to the left, and an exponent may be negated. -/
def rightBound : BinaryOp → Nat
  | .add | .sub => 2
  | .mul | .div => 3
  | .pow => 3

/-- A range is written by its corners, the one of a single cell as that cell. -/
def toChars (addressOf : CellId → Option Address) : Formula → List Char
  | number n => Number.formulaText n
  | text s => s.toList
  | reference cell => addressChars addressOf cell
  | range op first rest =>
    let last := rest.getLast?.getD first
    op.name.toList ++ '(' :: addressChars addressOf first ++
      (if first = last then [] else ':' :: addressChars addressOf last) ++ [')']
  | negate operand =>
    '-' :: parenthesized (operand.precedence < 3) (operand.toChars addressOf)
  | binary op left right =>
    parenthesized (left.precedence < leftBound op) (left.toChars addressOf) ++
      op.symbol :: parenthesized (right.precedence < rightBound op) (right.toChars addressOf)

def render (addressOf : CellId → Option Address) (f : Formula) : String :=
  String.ofList (f.toChars addressOf)

end Spreadsheet.Formula
