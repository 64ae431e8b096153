import Spreadsheet.Number.Decimal

/-! The shortest decimal that reads back as a given double. -/
namespace Spreadsheet.Number

/-- Cut the last `cut` digits off the exact expansion, downwards or upwards, whichever reads
back as `bits`; if both do, the nearer one, and upwards when they are equally near. When
neither does, keep one digit more. With nothing cut the expansion is exact. -/
def shortenFrom (bits : Nat) (exact : Decimal) : Nat → Decimal
  | 0 => exact
  | cut + 1 =>
    let unit := Nat.pow 10 (cut + 1)
    let below : Decimal := ⟨exact.coefficient / unit, exact.exponent + (cut + 1 : Nat)⟩
    let above : Decimal := ⟨exact.coefficient / unit + 1, below.exponent⟩
    if below.nearest = bits ∧
        (above.nearest ≠ bits ∨ 2 * (exact.coefficient % unit) < unit) then below
    else if above.nearest = bits then above
    else shortenFrom bits exact cut

/-- The decimal with the fewest digits, and of those the nearest, that reads back as `bits`. -/
def shortest (bits : Nat) : Decimal :=
  let exact := (Binary.ofBits bits).toDecimal
  shortenFrom bits exact (Nat.toDigits 10 exact.coefficient).length

end Spreadsheet.Number
