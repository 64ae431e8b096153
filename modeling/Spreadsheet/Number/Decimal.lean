import Spreadsheet.Number.Binary

/-! Nonnegative decimal numbers: their literals, their positional text, and the double that a
decimal stands for. -/
namespace Spreadsheet.Number

/-- The number `coefficient * 10 ^ exponent`. -/
structure Decimal where
  coefficient : Nat
  exponent : Int
deriving DecidableEq, Repr

namespace Decimal

/-- Digits around at most one point, at least one of them; no sign and no exponent. -/
def literal? (s : List Char) : Option Decimal :=
  let whole := s.takeWhile Char.isDigit
  match s.dropWhile Char.isDigit with
  | [] => if whole = [] then none else some ⟨Nat.ofDigitChars 10 whole 0, 0⟩
  | c :: fraction =>
    if c = '.' ∧ fraction.all Char.isDigit ∧ whole ++ fraction ≠ [] then
      some ⟨Nat.ofDigitChars 10 (whole ++ fraction) 0, -fraction.length⟩
    else none

/-- The digits written out, with zeros in the places that the coefficient leaves open. -/
def positional : Decimal → List Char
  | ⟨c, .ofNat e⟩ => Nat.toDigits 10 c ++ List.replicate e '0'
  | ⟨c, .negSucc e⟩ =>
    let fraction := Nat.toDigits 10 (c % Nat.pow 10 (e + 1))
    Nat.toDigits 10 (c / Nat.pow 10 (e + 1)) ++
      '.' :: (List.replicate (e + 1 - fraction.length) '0' ++ fraction)

/-- The bits of the nearest double, infinity if the number is too large. -/
def nearest : Decimal → Nat
  | ⟨c, .ofNat e⟩ => nearestBits (c * Nat.pow 10 e) 1
  | ⟨c, .negSucc e⟩ => nearestBits c (Nat.pow 10 (e + 1))

end Decimal

/-- Every finite double has a finite decimal expansion. -/
def Binary.toDecimal : Binary → Decimal
  | ⟨m, .ofNat e⟩ => ⟨m * Nat.pow 2 e, 0⟩
  | ⟨m, .negSucc e⟩ => ⟨m * Nat.pow 5 (e + 1), .negSucc e⟩

/-- The finite number that a literal stands for. -/
def ofLiteral? (s : List Char) : Option Float :=
  (Decimal.literal? s).bind fun d =>
    if d.nearest < infinityBits then some (Float.ofBits (UInt64.ofNat d.nearest)) else none

end Spreadsheet.Number
