/-! Nonnegative finite doubles as `significand * 2 ^ exponent`, and rounding a quotient of
natural numbers to the nearest of them. -/
namespace Spreadsheet.Number

/-- The bits of positive infinity; smaller magnitudes are finite. -/
def infinityBits : Nat := 2047 * Nat.pow 2 52

structure Binary where
  significand : Nat
  exponent : Int

/-- A zero exponent field marks a significand without its leading bit. -/
def Binary.ofBits (bits : Nat) : Binary :=
  if bits / Nat.pow 2 52 = 0 then ⟨bits, -1074⟩
  else ⟨bits % Nat.pow 2 52 + Nat.pow 2 52, (bits / Nat.pow 2 52 : Nat) - 1075⟩

/-- Of two equally near integers the even one. -/
def roundDiv (num den : Nat) : Nat :=
  let q := num / den
  let r := num % den
  if 2 * r < den then q
  else if den < 2 * r then q + 1
  else q + q % 2

/-- The quotient `num / den` divided by `2 ^ e`, again as a quotient. -/
def scaleDown (num den : Nat) : Int → Nat × Nat
  | .ofNat e => (num, den * Nat.pow 2 e)
  | .negSucc e => (num * Nat.pow 2 (e + 1), den)

/-- The largest `e` with `2 ^ e ≤ num / den`, for positive `num` and `den`. -/
def floorLog (num den : Nat) : Int :=
  let e : Int := (num.log2 : Int) - den.log2
  let (n, d) := scaleDown num den e
  if d ≤ n then e else e - 1

/-- The bits of the double nearest to `num / den`; of two equally near the one with the even
significand. The hidden bit of a normal significand carries into the exponent field, and so
does a significand that rounding made too long. -/
def nearestBits (num den : Nat) : Nat :=
  if num = 0 then 0
  else
    let e := max (floorLog num den - 52) (-1074)
    let (n, d) := scaleDown num den e
    min ((e + 1074).toNat * Nat.pow 2 52 + roundDiv n d) infinityBits

end Spreadsheet.Number
