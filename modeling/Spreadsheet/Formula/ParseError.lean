/-! What can be wrong with the text of a formula. -/
namespace Spreadsheet

/-- Positions count characters from the start of the formula. -/
inductive ParseError where
  | unexpectedCharacter (position : Nat) (found : Char)
  | unexpectedEnd (position : Nat)
  | trailingInput (position : Nat) (found : Char)
  | unmatchedParen (position : Nat)
  | invalidNumber (position : Nat) (literal : String)
  | invalidAddress (position : Nat) (label : String)
  | unresolvedAddress (position : Nat) (label : String)
  | unknownFunction (position : Nat) (name : String)
  | tooDeep (position : Nat)
  | emptyRange
deriving DecidableEq, Repr

def ParseError.message : ParseError → String
  | unexpectedCharacter position found => s!"Unexpected '{found}' at position {position}"
  | unexpectedEnd position => s!"Unexpected end of formula at position {position}"
  | trailingInput position found => s!"Unexpected trailing '{found}' at position {position}"
  | unmatchedParen position => s!"Unmatched '(' at position {position}"
  | invalidNumber position literal => s!"Invalid number '{literal}' at position {position}"
  | invalidAddress position label => s!"Invalid cell address '{label}' at position {position}"
  | unresolvedAddress position label =>
    s!"Cell address '{label}' at position {position} is outside the sheet"
  | unknownFunction position name => s!"Unknown function '{name}' at position {position}"
  | tooDeep position => s!"Formula nested too deeply at position {position}"
  | emptyRange => "Range aggregate needs at least one cell"

end Spreadsheet
