import Spreadsheet.Number.Text

/-! What a cell shows: a number or a text. -/
namespace Spreadsheet

inductive Value where
  | number (n : Float)
  | text (s : String)
deriving DecidableEq

namespace Value

/-- The value of a cell that holds nothing. -/
def empty : Value := .text ""

instance : Inhabited Value := ⟨empty⟩

/-- A text counts as zero. -/
def asNumber : Value → Float
  | .number n => n
  | .text _ => 0

/-- A number has no text. -/
def asText : Value → String
  | .number _ => ""
  | .text s => s

def display : Value → String
  | .number n => String.ofList (Number.gridText n)
  | .text s => s

/-- Numbers are compared as numbers: the two zeros agree, and NaN differs from itself. -/
def agrees : Value → Value → Bool
  | .number m, .number n => m == n
  | .text s, .text t => s == t
  | _, _ => false

end Value
end Spreadsheet
