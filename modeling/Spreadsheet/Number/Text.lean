import Spreadsheet.Number.Shortest

/-! The texts of a number: inside a formula, and on the grid. -/
namespace Spreadsheet.Number

/-- The bits without the sign. -/
def magnitude (x : Float) : Nat := x.toBits.toNat % Nat.pow 2 63

/-- The sign bit; a zero has it too. -/
def isNegative (x : Float) : Bool := Nat.pow 2 63 ≤ x.toBits.toNat

def magnitudeText (bits : Nat) : List Char :=
  if bits = 0 then ['0']
  else if bits = infinityBits then ['i', 'n', 'f']
  else (shortest bits).positional

/-- The text in a formula: the shortest digits that read back, never with an exponent. -/
def formulaText (x : Float) : List Char :=
  if x.isNaN then ['N', 'a', 'N']
  else if isNegative x then '-' :: magnitudeText (magnitude x)
  else magnitudeText (magnitude x)

/-- The text on the grid: anomalies have names of their own and a zero shows no sign. -/
def gridText (x : Float) : List Char :=
  if x.isNaN then "#NAN!".toList
  else if x.isInf then if isNegative x then "-#INF!".toList else "#INF!".toList
  else if magnitude x = 0 then ['0']
  else formulaText x

end Spreadsheet.Number
