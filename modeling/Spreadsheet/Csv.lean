import Spreadsheet.Sheet

/-! The sheet as comma-separated values, one line a row. -/
namespace Spreadsheet.Csv

/-- Whether a spreadsheet program would take the field for a formula. -/
def looksLikeFormula (field : List Char) : Bool :=
  match (field.dropWhile fun c => c == ' ' || c == '\t').head? with
  | some c => c ∈ ['=', '+', '-', '@']
  | none => false

/-- An apostrophe in front keeps a field from being taken for a formula. -/
def guarded (field : List Char) : List Char :=
  if looksLikeFormula field then '\'' :: field else field

def needsQuotes (field : List Char) : Bool := field.any (· ∈ [',', '"', '\n', '\r'])

/-- Inside quotes a quote is written twice. -/
def quoted (field : List Char) : List Char :=
  '"' :: field.flatMap (fun c => if c = '"' then ['"', '"'] else [c]) ++ ['"']

def field (text : List Char) : List Char :=
  let g := guarded text
  if needsQuotes g then quoted g else g

def record (texts : List (List Char)) : List Char :=
  [','].intercalate (texts.map field) ++ ['\n']

end Csv

namespace Sheet

/-- The texts of row `i` as they are shown. -/
def rowTexts (s : Sheet) (i : Nat) : List (List Char) :=
  s.columns.map fun column =>
    (((column[i]?).bind s.cells.valueOf).map fun v => v.display.toList).getD []

def toCsv (s : Sheet) : String :=
  String.ofList ((List.range s.height).flatMap fun i => Csv.record (s.rowTexts i))

end Sheet
end Spreadsheet
