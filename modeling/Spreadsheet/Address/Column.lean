import Spreadsheet.Text.Natural

/-! Column labels: bijective base 26 with the digits `A` to `Z`, so that `Z` is followed
by `AA`. -/
namespace Spreadsheet.Column

def letter (digit : Nat) : Char := Char.ofNat ('A'.toNat + digit)

/-- The numeral of `n`, the letter `A` standing for one; zero has no letters. -/
def numeral (n : Nat) : List Char :=
  if n = 0 then [] else numeral ((n - 1) / 26) ++ [letter ((n - 1) % 26)]
termination_by n
decreasing_by omega

/-- The number of a numeral of `v` with one more letter behind it. -/
def extend (v : Nat) (c : Char) : Nat := 26 * v + (c.toNat - 'A'.toNat + 1)

/-- The number of a numeral. -/
def value (letters : List Char) : Nat := letters.foldl extend 0

/-- Columns count from zero. -/
def label (column : Nat) : List Char := numeral (column + 1)

/-- Only capital letters extend a numeral, and only to numbers below `indexLimit`. -/
def extend? (v : Nat) (c : Char) : Option Nat :=
  if c.isUpper ∧ extend v c < indexLimit then some (extend v c) else none

/-- The column of a label of capital letters; labels whose number reaches `indexLimit` name
no column. -/
def ofLabel? (letters : List Char) : Option Nat :=
  if letters = [] then none else (letters.foldlM extend? 0).map (· - 1)

end Spreadsheet.Column
