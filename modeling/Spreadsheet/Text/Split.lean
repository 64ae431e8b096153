import Spreadsheet.Text.Blank

/-! Cutting text at characters of a class: words and lines. -/
namespace Spreadsheet.Text

/-- Each separator ends one piece and begins the next, so there is one piece more
than there are separators. -/
def splitOn (sep : Char → Bool) : List Char → List (List Char)
  | [] => [[]]
  | c :: s =>
    if sep c then [] :: splitOn sep s
    else match splitOn sep s with
      | [] => [[c]]
      | piece :: pieces => (c :: piece) :: pieces

/-- The longest runs without blanks. -/
def words (s : List Char) : List (List Char) := (splitOn isBlank s).filter (!·.isEmpty)

/-- A last line without a line feed counts if it holds anything. -/
def lines (s : List Char) : List (List Char) :=
  let pieces := splitOn (· == '\n') s
  if pieces.getLast? == some [] then pieces.dropLast else pieces

end Spreadsheet.Text
