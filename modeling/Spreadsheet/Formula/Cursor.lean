import Spreadsheet.Formula.ParseError
import Spreadsheet.Text.Blank

/-! A place in the text of a formula. Blanks are skipped only where a token is looked for. -/
namespace Spreadsheet

structure Cursor where
  rest : List Char
  position : Nat

namespace Cursor

def start (s : List Char) : Cursor := ⟨s, 0⟩

def advance (c : Cursor) : Cursor := ⟨c.rest.tail, c.position + 1⟩

/-- The longest run of characters of a class, and the place behind it. -/
def span (p : Char → Bool) (c : Cursor) : List Char × Cursor :=
  let run := c.rest.takeWhile p
  (run, ⟨c.rest.dropWhile p, c.position + run.length⟩)

def skipBlanks (c : Cursor) : Cursor := (c.span Text.isBlank).2

/-- The place behind the token, if it comes next. -/
def eat? (token : Char) (c : Cursor) : Option Cursor :=
  let c := c.skipBlanks
  if c.rest.head? = some token then some c.advance else none

/-- Nothing that the grammar allows stands here. -/
def unexpected (c : Cursor) : ParseError :=
  match c.rest with
  | [] => .unexpectedEnd c.position
  | found :: _ => .unexpectedCharacter c.position found

end Cursor
end Spreadsheet
