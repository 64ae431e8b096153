import Spreadsheet.Formula.Parser

/-! The grammar of formulas: which texts it derives, and the trees that they stand for.

    expression := term (('+' | '-') term)*
    term       := factor (('*' | '/') factor)*
    factor     := ('+' | '-') factor | primary ('^' factor)?
    primary    := number | '(' expression ')' | address
                | function '(' address (':' address)? ')'

Blanks may stand before every token. -/
namespace Spreadsheet.Grammar

def Blank (s : List Char) : Prop := ∀ c ∈ s, Text.isBlank c

/-- A token, and the blanks before it. -/
def Token (token s : List Char) : Prop := ∃ blanks, Blank blanks ∧ s = blanks ++ token

/-- Digits and points that stand for a finite number. -/
def Numeral (s : List Char) (n : Float) : Prop :=
  ∃ literal, Token literal s ∧ literal ≠ [] ∧ (∀ c ∈ literal, c.isDigit ∨ c = '.') ∧
    Number.ofLiteral? literal = some n

/-- Capital letters and digits, with nothing between them, that name an address. -/
def Label (s : List Char) (a : Address) : Prop :=
  ∃ letters digits, Token (letters ++ digits) s ∧ (letters ≠ [] ∧ ∀ c ∈ letters, c.isUpper) ∧
    (digits ≠ [] ∧ ∀ c ∈ digits, c.isDigit) ∧ Address.ofChars? (letters ++ digits) = some a

/-- The two corners of a range, or the one that is both. -/
inductive Corners : List Char → Address → Address → Prop
  | single {s : List Char} {a : Address} : Label s a → Corners s a a
  | pair {s t u : List Char} {a b : Address} : Label s a → Token [':'] t → Label u b →
      Corners (s ++ t ++ u) a b

inductive Symbol where
  | expression | term | factor | primary
deriving DecidableEq

/-- The text is derived from the symbol and stands for the formula; at most `n` factors of the
derivation are inside one another. Chains lean to the left, and parentheses and the sign `+`
leave no trace in the tree. -/
inductive Derives (r : Resolver) : Symbol → List Char → Formula → Nat → Prop
  | term {s : List Char} {f : Formula} {n : Nat} :
      Derives r .term s f n → Derives r .expression s f n
  | sum {op : BinaryOp} {s t u : List Char} {f g : Formula} {m n : Nat} :
      op = .add ∨ op = .sub → Derives r .expression s f m → Token [op.symbol] t →
      Derives r .term u g n → Derives r .expression (s ++ t ++ u) (.binary op f g) (max m n)
  | factor {s : List Char} {f : Formula} {n : Nat} :
      Derives r .factor s f n → Derives r .term s f n
  | product {op : BinaryOp} {s t u : List Char} {f g : Formula} {m n : Nat} :
      op = .mul ∨ op = .div → Derives r .term s f m → Token [op.symbol] t →
      Derives r .factor u g n → Derives r .term (s ++ t ++ u) (.binary op f g) (max m n)
  | plus {s t : List Char} {f : Formula} {n : Nat} :
      Token ['+'] s → Derives r .factor t f n → Derives r .factor (s ++ t) f (n + 1)
  | minus {s t : List Char} {f : Formula} {n : Nat} :
      Token ['-'] s → Derives r .factor t f n → Derives r .factor (s ++ t) (.negate f) (n + 1)
  | primary {s : List Char} {f : Formula} {n : Nat} :
      Derives r .primary s f n → Derives r .factor s f (n + 1)
  | power {s t u : List Char} {f g : Formula} {m n : Nat} :
      Derives r .primary s f m → Token ['^'] t → Derives r .factor u g n →
      Derives r .factor (s ++ t ++ u) (.binary .pow f g) (max m n + 1)
  | number {s : List Char} {n : Float} : Numeral s n → Derives r .primary s (.number n) 0
  | parens {s t u : List Char} {f : Formula} {n : Nat} :
      Token ['('] s → Derives r .expression t f n → Token [')'] u →
      Derives r .primary (s ++ t ++ u) f n
  | reference {s : List Char} {a : Address} {cell : CellId} :
      Label s a → r.cell a = some cell → Derives r .primary s (.reference cell) 0
  | range {op : Aggregate} {s t u v : List Char} {a b : Address} {first : CellId}
      {rest : List CellId} :
      Token op.name.toList s → Token ['('] t → Corners u a b → Token [')'] v →
      r.range a b = some (first :: rest) →
      Derives r .primary (s ++ t ++ u ++ v) (.range op first rest) 0

/-! Blanks in front belong to the first token. -/

theorem Blank.append {s t : List Char} (hs : Blank s) (ht : Blank t) : Blank (s ++ t) := by
  intro c member
  exact (List.mem_append.mp member).elim (hs c) (ht c)

theorem Token.blank {blanks token s : List Char} (blank : Blank blanks) (h : Token token s) :
    Token token (blanks ++ s) := by
  obtain ⟨more, moreBlank, rfl⟩ := h
  exact ⟨blanks ++ more, blank.append moreBlank, (List.append_assoc ..).symm⟩

theorem Token.self (token : List Char) : Token token token := ⟨[], by simp [Blank], rfl⟩

theorem Label.blank {blanks s : List Char} {a : Address} (blank : Blank blanks) (h : Label s a) :
    Label (blanks ++ s) a := by
  obtain ⟨letters, digits, token, h⟩ := h
  exact ⟨letters, digits, token.blank blank, h⟩

theorem Numeral.blank {blanks s : List Char} {n : Float} (blank : Blank blanks) (h : Numeral s n) :
    Numeral (blanks ++ s) n := by
  obtain ⟨literal, token, h⟩ := h
  exact ⟨literal, token.blank blank, h⟩

theorem Derives.blank {r : Resolver} {symbol : Symbol} {blanks s : List Char} {f : Formula} {n : Nat}
    (blank : Blank blanks) (h : Derives r symbol s f n) : Derives r symbol (blanks ++ s) f n := by
  induction h with
  | term _ ih => exact .term ih
  | sum isSum _ token right ih =>
    rw [← List.append_assoc, ← List.append_assoc]
    exact .sum isSum ih token right
  | factor _ ih => exact .factor ih
  | product isProduct _ token right ih =>
    rw [← List.append_assoc, ← List.append_assoc]
    exact .product isProduct ih token right
  | plus token operand =>
    rw [← List.append_assoc]
    exact .plus (token.blank blank) operand
  | minus token operand =>
    rw [← List.append_assoc]
    exact .minus (token.blank blank) operand
  | primary _ ih => exact .primary ih
  | power _ token exponent ih =>
    rw [← List.append_assoc, ← List.append_assoc]
    exact .power ih token exponent
  | number numeral => exact .number (numeral.blank blank)
  | parens opening inner closing =>
    rw [← List.append_assoc, ← List.append_assoc]
    exact .parens (opening.blank blank) inner closing
  | reference label resolved => exact .reference (label.blank blank) resolved
  | range name opening corners closing resolved =>
    rw [← List.append_assoc, ← List.append_assoc, ← List.append_assoc]
    exact .range (name.blank blank) opening corners closing resolved

end Spreadsheet.Grammar
