import Spreadsheet.Number.Decimal

/-! Readers of TOML text as far as there are no brackets: space, keys, strings, numbers, dates. -/
namespace Spreadsheet.Toml

/-- What stands at the front of a text, and the text behind it. -/
abbrev Reader := StateT (List Char) Option

namespace Reader
variable {α : Type}

/-- A character of a class. -/
def one (p : Char → Bool) : Reader Char := fun s =>
  match s with
  | c :: rest => if p c then some (c, rest) else none
  | [] => none

/-- The longest run of characters of a class, if only the empty one. -/
def run (p : Char → Bool) : Reader (List Char) := fun s => some (s.span p)

def word (text : String) : Reader Unit := fun s => (text.toList.isPrefixOf? s).map ((), ·)

def mark (c : Char) : Reader Unit := word (String.singleton c)

def atEnd : Reader Unit := do
  guard (← get).isEmpty

def times (r : Reader α) : Nat → Reader (List α)
  | 0 => pure []
  | n + 1 => do return (← r) :: (← times r n)

/-- As often as it can be read. Each time takes a character, so the text itself can count. -/
def many (r : Reader α) : Reader (List α) := fun s => go [] s s
where
  go (done : List α) (s : List Char) : List Char → Option (List α × List Char)
    | [] => some (done.reverse, s)
    | _ :: left =>
      match r s with
      | none => some (done.reverse, s)
      | some (a, rest) => go (a :: done) rest left

def separated (separator : Reader Unit) (r : Reader α) : Reader (List α) := do
  return (← r) :: (← many (separator *> r))

end Reader

open Reader

/-! Lines and space. -/

/-- Characters that may stand in a comment or a string. -/
def isText (c : Char) : Bool := c == '\t' || (0x20 ≤ c.toNat && c.toNat != 0x7f)

def isSpace (c : Char) : Bool := c == ' ' || c == '\t'

def spaces : Reader Unit := discard (run isSpace)

def newline : Reader Unit := word "\n" <|> word "\r\n"

def comment : Reader Unit := mark '#' <* run isText

/-- Space, comments and line breaks. -/
def blanks : Reader Unit :=
  spaces <* many (optional comment *> newline *> spaces)

/-- Nothing but space and a comment is left on the line. -/
def lineEnd : Reader Unit :=
  spaces *> optional comment *> (newline <|> atEnd)

/-! Numerals. -/

/-- The letters go on behind nine. -/
def digitValue (c : Char) : Nat :=
  if c.isDigit then c.toNat - '0'.toNat else c.toLower.toNat - 'a'.toNat + 10

def isDigitOf (base : Nat) (c : Char) : Bool := c.isAlphanum && digitValue c < base

def number (base : Nat) (digits : List Char) : Nat :=
  digits.foldl (fun n c => base * n + digitValue c) 0

/-- Digits; single underscores may stand between them. -/
def digits (base : Nat) : Reader (List Char) :=
  separated (discard (optional (mark '_'))) (one (isDigitOf base))

/-- Decimal digits, without zeros in front. -/
def whole : Reader (List Char) := do
  let found ← digits 10
  guard (found.head? ≠ some '0' ∨ found = ['0'])
  return found

def isNegative : Reader Bool :=
  mark '-' *> pure true <|> optional (mark '+') *> pure false

def signed (digits : Reader (List Char)) : Reader Int := do
  let negative ← isNegative
  let n := number 10 (← digits)
  return if negative then -n else n

/-- Integers have 64 bits, and a sign only if they are decimal. -/
def integer : Reader Int := do
  let n ← based "0x" 16 <|> based "0o" 8 <|> based "0b" 2 <|> signed whole
  guard (Int64.minValue.toInt ≤ n ∧ n ≤ Int64.maxValue.toInt)
  return n
where
  based (prelude : String) (base : Nat) : Reader Int := do
    word prelude
    return number base (← digits base)

/-- Whether the nearest double of these digits and this exponent is a finite one. -/
def isFinite (digits : List Char) (exponent : Int) : Bool :=
  let digits := digits.dropWhile (· == '0')
  let places := digits.length + exponent
  digits = [] || places < 309 || (places = 309 &&
    Number.Decimal.nearest ⟨number 10 digits, exponent⟩ < Number.infinityBits)

/-- A number with a fraction or an exponent. A positive one must not be beyond the doubles. -/
def fractional : Reader Unit := do
  let negative ← isNegative
  let front ← whole
  let fraction? ← optional (mark '.' *> digits 10)
  let exponent? ← optional (one (fun c => c == 'e' || c == 'E') *> signed (digits 10))
  guard (fraction?.isSome ∨ exponent?.isSome)
  let fraction := fraction?.getD []
  guard (negative ∨ isFinite (front ++ fraction) (exponent?.getD 0 - fraction.length))

def nonFinite : Reader Unit := isNegative *> (word "inf" <|> word "nan")

/-! Dates and times. -/

/-- A decimal number of so many digits between two bounds. -/
def field (count least most : Nat) : Reader Nat := do
  let n := number 10 (← times (one Char.isDigit) count)
  guard (least ≤ n ∧ n ≤ most)
  return n

def daysIn (year : Nat) : Nat → Nat
  | 2 => if year % 4 = 0 ∧ (year % 100 ≠ 0 ∨ year % 400 = 0) then 29 else 28
  | 4 | 6 | 9 | 11 => 30
  | _ => 31

def date : Reader Unit := do
  let year ← field 4 0 9999 <* mark '-'
  let month ← field 2 1 12 <* mark '-'
  discard (field 2 1 (daysIn year month))

/-- There are leap seconds. -/
def clock : Reader Unit := do
  discard (field 2 0 23 *> mark ':' *> field 2 0 59 *> mark ':' *> field 2 0 60)
  discard (optional (mark '.' *> one Char.isDigit *> run Char.isDigit))

def offset : Reader Unit :=
  discard (one fun c => c == 'Z' || c == 'z') <|>
    discard (one (fun c => c == '+' || c == '-') *> field 2 0 23 *> mark ':' *> field 2 0 59)

def moment : Reader Unit :=
  clock <|> date <* optional (one (fun c => c == 'T' || c == 't' || c == ' ') *> clock <*
    optional offset)

/-! Strings. -/

/-- A character by its number in hexadecimal. -/
def scalar (count : Nat) : Reader Char := do
  let n := number 16 (← times (one (isDigitOf 16)) count)
  guard n.isValidChar
  return Char.ofNat n

def escape : Reader Char := do
  mark '\\'
  match ← one isText with
  | 'b' => return '\x08'
  | 't' => return '\t'
  | 'n' => return '\n'
  | 'f' => return '\x0c'
  | 'r' => return '\r'
  | '"' => return '"'
  | '\\' => return '\\'
  | 'u' => scalar 4
  | 'U' => scalar 8
  | _ => failure

/-- Between single quotes a backslash is a character as any other. -/
def character (quote : Char) : Reader Char :=
  one (fun c => isText c && c != quote && (c != '\\' || quote == '\'')) <|> escape

def onLine (quote : Char) : Reader String := do
  let text ← mark quote *> many (character quote) <* mark quote
  return String.ofList text

/-- A string between triples of quotes. A line break right behind the first triple does not count, a
backslash takes away the blanks behind it if the line ends there, and up to two quotes may stand
anywhere, also next to the last triple. -/
def overLines (quote : Char) : Reader String := do
  word (String.ofList [quote, quote, quote])
  discard (optional newline)
  let text ← many (List.singleton <$> character quote <|> newline *> pure ['\n'] <|>
    joined *> pure [] <|> quotes 1 2)
  let closing ← quotes 3 5
  return String.ofList (text.flatten ++ closing.drop 3)
where
  joined : Reader Unit :=
    mark '\\' *> spaces *> newline <* many (newline <|> discard (one isSpace))
  quotes (least most : Nat) : Reader (List Char) := do
    let found ← run (· == quote)
    guard (least ≤ found.length ∧ found.length ≤ most)
    return found

def string : Reader String :=
  overLines '"' <|> onLine '"' <|> overLines '\'' <|> onLine '\''

def isBareKey (c : Char) : Bool := c.isAlphanum || c == '_' || c == '-'

def key : Reader String := onLine '"' <|> onLine '\'' <|> do
  let text ← run isBareKey
  guard (text ≠ [])
  return String.ofList text

end Spreadsheet.Toml
