import Spreadsheet.Address
import Spreadsheet.Formula
import Spreadsheet.Formula.Cursor

/-! Reading a formula. The grammar, loosest first:

* an expression is a chain of terms joined by `+` and `-`;
* a term is a chain of factors joined by `*` and `/`;
* a factor is a signed factor, or a primary that may be raised to a factor;
* a primary is a number, an expression in parentheses, an address, or a function of a range.

Chains lean to the left. At most `nestingLimit` factors are open at once, and no tree is
deeper than `depthLimit`. -/
namespace Spreadsheet

/-- What addresses in a formula stand for: a cell, or the cells of a rectangle, row by row. -/
structure Resolver where
  cell : Address → Option CellId
  range : Address → Address → Option (List CellId)

/-- For formulas that may not name cells. -/
def Resolver.none : Resolver := ⟨fun _ => .none, fun _ _ => .none⟩

namespace Parser

def nestingLimit : Nat := 256
def depthLimit : Nat := 1024

/-- A step reads from one place and ends at a later one. -/
abbrev Step (α : Type) := Cursor → Except ParseError (α × Cursor)

def bounded (position : Nat) (f : Formula) : Except ParseError Formula :=
  if f.depth ≤ depthLimit then .ok f else .error (.tooDeep position)

/-- Joins further operands to `left`, as many as stand there but no more than `fuel`. -/
def chainFrom (op? : Char → Option BinaryOp) (operand : Step Formula) :
    Nat → Formula → Step Formula
  | 0, left, c => .ok (left, c)
  | fuel + 1, left, c =>
    let c := c.skipBlanks
    match c.rest.head?.bind op? with
    | none => .ok (left, c)
    | some op => do
      let (right, d) ← operand c.advance
      let whole ← bounded c.position (.binary op left right)
      chainFrom op? operand fuel whole d

/-- Operands joined by operators of one precedence; each takes a character at least. -/
def chain (op? : Char → Option BinaryOp) (operand : Step Formula) : Step Formula := fun c => do
  let (first, d) ← operand c
  chainFrom op? operand d.rest.length first d

def additive? : Char → Option BinaryOp
  | '+' => some .add
  | '-' => some .sub
  | _ => none

def multiplicative? : Char → Option BinaryOp
  | '*' => some .mul
  | '/' => some .div
  | _ => none

def expression (factor : Step Formula) : Step Formula :=
  chain additive? (chain multiplicative? factor)

def isNumberChar (c : Char) : Bool := c.isDigit || c == '.'

def number : Step Formula := fun c =>
  let (literal, d) := c.span isNumberChar
  match Number.ofLiteral? literal with
  | some n => .ok (.number n, d)
  | none => .error (.invalidNumber c.position (String.ofList literal))

/-- The address that a label names; `position` is that of the label. -/
def addressOf (position : Nat) (label : List Char) : Except ParseError Address :=
  match Address.ofChars? label with
  | some a => .ok a
  | none => .error (.invalidAddress position (String.ofList label))

/-- The label of a corner of a range, with its place. -/
def corner : Step (Nat × List Char × Address) := fun c => do
  let c := c.skipBlanks
  let (letters, d) := c.span Char.isUpper
  if letters = [] then throw d.unexpected
  let (digits, e) := d.span Char.isDigit
  if digits = [] then throw e.unexpected
  let a ← addressOf c.position (letters ++ digits)
  return ((c.position, letters ++ digits, a), e)

/-- The range in the parentheses of a function; `paren` is the place of the opening one. -/
def rangeCall (r : Resolver) (op : Aggregate) (paren : Nat) : Step Formula := fun c => do
  let ((position, firstLabel, first), d) ← corner c
  let ((label, last), e) ← match d.eat? ':' with
    | none => pure ((firstLabel, first), d)
    | some d => do
      let ((_, lastLabel, last), e) ← corner d
      pure ((firstLabel ++ ':' :: lastLabel, last), e)
  match e.eat? ')' with
  | none =>
    throw (if e.skipBlanks.rest = [] then .unmatchedParen paren else e.skipBlanks.unexpected)
  | some e =>
    match r.range first last with
    | none => throw (.unresolvedAddress position (String.ofList label))
    | some cells =>
      match Formula.range? op cells with
      | none => throw .emptyRange
      | some f => return (f, e)

/-- An address, or a function and its range. -/
def named (r : Resolver) : Step Formula := fun c =>
  let (name, d) := c.span Char.isUpper
  let (digits, e) := d.span Char.isDigit
  if digits ≠ [] then do
    let a ← addressOf c.position (name ++ digits)
    match r.cell a with
    | none => throw (.unresolvedAddress c.position (String.ofList (name ++ digits)))
    | some cell => return (.reference cell, e)
  else
    match d.eat? '(' with
    | none => .error (.invalidAddress c.position (String.ofList name))
    | some e =>
      match Aggregate.ofName? (String.ofList name) with
      | none => .error (.unknownFunction c.position (String.ofList name))
      | some op => rangeCall r op (e.position - 1) e

def primary (r : Resolver) (factor : Step Formula) : Step Formula := fun c =>
  match c.rest with
  | [] => .error c.unexpected
  | ch :: _ =>
    if ch = '(' then do
      let (inner, d) ← expression factor c.advance
      match d.eat? ')' with
      | none => throw (.unmatchedParen c.position)
      | some d => return (inner, d)
    else if isNumberChar ch then number c
    else if ch.isUpper then named r c
    else .error c.unexpected

/-- At most `room` factors may be open at once, this one included. -/
def factor (r : Resolver) : Nat → Step Formula
  | 0, c => .error (.tooDeep c.skipBlanks.position)
  | room + 1, c =>
    let c := c.skipBlanks
    if c.rest.head? = some '+' then factor r room c.advance
    else if c.rest.head? = some '-' then do
      let (operand, d) ← factor r room c.advance
      return (← bounded c.position (.negate operand), d)
    else do
      let (base, d) ← primary r (factor r room) c
      match d.eat? '^' with
      | none => return (base, d)
      | some d =>
        let (exponent, d) ← factor r room d
        return (← bounded c.position (.binary .pow base exponent), d)

end Parser

/-- The formula that the whole text stands for. -/
def Formula.parse (r : Resolver) (s : List Char) : Except ParseError Formula := do
  let (f, c) ← Parser.expression (Parser.factor r Parser.nestingLimit) (.start s)
  match c.skipBlanks.rest with
  | [] => return f
  | found :: _ => throw (.trailingInput c.skipBlanks.position found)

/-- What is typed into a cell: nothing, a formula behind `=`, a text in quotes, arithmetic that
shows by its first character, or else a text. Blanks around it do not count. -/
def Formula.ofInput (r : Resolver) (raw : String) : Except ParseError Formula :=
  match Text.trim raw.toList with
  | [] => .ok (.text "")
  | '=' :: s => parse r s
  | first :: s =>
    if first = '"' ∧ s.getLast? = some '"' then .ok (.text (String.ofList s.dropLast))
    else if first.isDigit ∨ first ∈ ['.', '+', '-', '('] then parse r (first :: s)
    else .ok (.text (String.ofList (first :: s)))

end Spreadsheet
