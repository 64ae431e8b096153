import Spreadsheet.Proofs.AddressText
import Spreadsheet.Proofs.GrammarCompleteness
import Spreadsheet.Proofs.ParserResult

/-! A formula reads back from its text. The cells it names are found again by their addresses,
so the tree that comes back is the one that the resolver makes of those addresses. -/
namespace Spreadsheet

namespace Formula
open Spreadsheet.Parser Spreadsheet.Grammar

/-- As an operand, in parentheses if it binds looser than `bound`. -/
def operandChars (addressOf : CellId → Option Address) (bound : Nat) (f : Formula) : List Char :=
  parenthesized (f.precedence < bound) (f.toChars addressOf)

theorem operandChars_of_le {addressOf : CellId → Option Address} {bound : Nat} {f : Formula}
    (h : bound ≤ f.precedence) : f.operandChars addressOf bound = f.toChars addressOf := by
  unfold operandChars parenthesized
  rw [if_neg (by simpa using h)]

theorem operandChars_of_lt {addressOf : CellId → Option Address} {bound : Nat} {f : Formula}
    (h : f.precedence < bound) :
    f.operandChars addressOf bound = '(' :: f.toChars addressOf ++ [')'] := by
  unfold operandChars parenthesized
  rw [if_pos (by simpa using h)]

theorem toChars_binary (addressOf : CellId → Option Address) (op : BinaryOp)
    (left right : Formula) : (binary op left right).toChars addressOf =
      left.operandChars addressOf (leftBound op) ++
        op.symbol :: right.operandChars addressOf (rightBound op) := rfl

theorem toChars_negate (addressOf : CellId → Option Address) (operand : Formula) :
    (negate operand).toChars addressOf = '-' :: operand.operandChars addressOf 3 := rfl

theorem one_le_precedence (f : Formula) : 1 ≤ f.precedence := by
  unfold precedence
  split <;> decide

/-- What a formula becomes when its text is read: the same, but with the cells that the
resolver finds at the addresses written in it. -/
inductive Restated (r : Resolver) (addressOf : CellId → Option Address) : Formula → Formula → Prop
  | number {n : Float} : Number.IsLiteral n → Restated r addressOf (.number n) (.number n)
  | reference {cell target : CellId} {a : Address} : addressOf cell = some a → a.IsWritable →
      r.cell a = some target → Restated r addressOf (.reference cell) (.reference target)
  | range {op : Aggregate} {first first' : CellId} {rest rest' : List CellId} {a b : Address} :
      addressOf first = some a → addressOf (rest.getLast?.getD first) = some b →
      a.IsWritable → b.IsWritable → r.range a b = some (first' :: rest') →
      Restated r addressOf (.range op first rest) (.range op first' rest')
  | negate {f g : Formula} : Restated r addressOf f g → Restated r addressOf (.negate f) (.negate g)
  | binary {op : BinaryOp} {f f' g g' : Formula} : Restated r addressOf f g →
      Restated r addressOf f' g' → Restated r addressOf (.binary op f f') (.binary op g g')

variable {r : Resolver} {addressOf : CellId → Option Address} {f g : Formula}

theorem Restated.depth_eq (h : Restated r addressOf f g) : g.depth = f.depth := by
  induction h with
  | number | reference | range => rfl
  | negate _ ih => simp only [depth, ih]
  | binary _ _ ihl ihr => simp only [depth, ihl, ihr]

/-! The rendered text is derived, on each level of the grammar, in parentheses where the formula
binds looser than the level asks for. -/

structure Derived (r : Resolver) (addressOf : CellId → Option Address) (f g : Formula) : Prop where
  expression : Derives r .expression (f.operandChars addressOf 1) g (f.nestingWithin 1)
  term : Derives r .term (f.operandChars addressOf 2) g (f.nestingWithin 2)
  factor : Derives r .factor (f.operandChars addressOf 3) g (f.nestingWithin 3)
  primary : ∃ n, n + 1 = f.nestingWithin 5 ∧ Derives r .primary (f.operandChars addressOf 5) g n

theorem derives_parens (h : Derives r .expression (f.toChars addressOf) g f.nesting) :
    Derives r .primary ('(' :: f.toChars addressOf ++ [')']) g f.nesting :=
  .parens (.self ['(']) h (.self [')'])

/-! The steps of the induction, one for each level that a formula can stand on. -/

theorem derived_of_expression (h : Derives r .expression (f.toChars addressOf) g f.nesting)
    (level : f.precedence = 1) : Derived r addressOf f g := by
  have primary := derives_parens h
  constructor
  · rwa [operandChars_of_le (by omega), nestingWithin_of_le (by omega)]
  · rw [operandChars_of_lt (by omega), nestingWithin_of_lt (by omega)]
    exact .factor (.primary primary)
  · rw [operandChars_of_lt (by omega), nestingWithin_of_lt (by omega)]
    exact .primary primary
  · rw [operandChars_of_lt (by omega), nestingWithin_of_lt (by omega)]
    exact ⟨_, rfl, primary⟩

theorem derived_of_term (h : Derives r .term (f.toChars addressOf) g f.nesting)
    (level : f.precedence = 2) : Derived r addressOf f g := by
  have primary := derives_parens (.term h)
  constructor
  · rw [operandChars_of_le (by omega), nestingWithin_of_le (by omega)]
    exact .term h
  · rwa [operandChars_of_le (by omega), nestingWithin_of_le (by omega)]
  · rw [operandChars_of_lt (by omega), nestingWithin_of_lt (by omega)]
    exact .primary primary
  · rw [operandChars_of_lt (by omega), nestingWithin_of_lt (by omega)]
    exact ⟨_, rfl, primary⟩

theorem derived_of_factor (h : Derives r .factor (f.toChars addressOf) g f.nesting)
    (level : f.precedence = 3 ∨ f.precedence = 4) : Derived r addressOf f g := by
  have primary := derives_parens (.term (.factor h))
  constructor
  · rw [operandChars_of_le (by omega), nestingWithin_of_le (by omega)]
    exact .term (.factor h)
  · rw [operandChars_of_le (by omega), nestingWithin_of_le (by omega)]
    exact .factor h
  · rwa [operandChars_of_le (by omega), nestingWithin_of_le (by omega)]
  · rw [operandChars_of_lt (by omega), nestingWithin_of_lt (by omega)]
    exact ⟨_, rfl, primary⟩

theorem derived_of_primary (h : Derives r .primary (f.toChars addressOf) g 0)
    (level : f.precedence = 5) (leaf : f.nesting = 1) : Derived r addressOf f g := by
  have factor : Derives r .factor (f.toChars addressOf) g f.nesting := leaf ▸ .primary h
  constructor
  · rw [operandChars_of_le (by omega), nestingWithin_of_le (by omega)]
    exact .term (.factor factor)
  · rw [operandChars_of_le (by omega), nestingWithin_of_le (by omega)]
    exact .factor factor
  · rwa [operandChars_of_le (by omega), nestingWithin_of_le (by omega)]
  · rw [operandChars_of_le (by omega), nestingWithin_of_le (by omega)]
    exact ⟨0, leaf.symm, h⟩

/-! Leaves. -/

theorem numeral_formulaText {n : Float} (literal : Number.IsLiteral n) :
    Numeral (Number.formulaText n) n :=
  have ⟨nonempty, all⟩ := Number.formulaText_isNumberText literal
  ⟨_, .self _, nonempty, all, Number.ofLiteral?_formulaText literal⟩

theorem label_toChars {a : Address} (writable : a.IsWritable) : Label a.toChars a :=
  ⟨_, _, .self _, ⟨Column.label_ne_nil _, Column.isUpper_of_mem_label _⟩,
    ⟨Nat.toDigits_ne_nil, Text.isDigit_of_mem_toDigits⟩, Address.ofChars?_toChars writable⟩

theorem derives_range {op : Aggregate} {first first' : CellId} {rest rest' : List CellId}
    {a b : Address} (known : addressOf first = some a)
    (known' : addressOf (rest.getLast?.getD first) = some b) (writable : a.IsWritable)
    (writable' : b.IsWritable) (resolved : r.range a b = some (first' :: rest')) :
    Derives r .primary ((range op first rest).toChars addressOf) (range op first' rest') 0 := by
  have corners : Corners (a.toChars ++ if first = rest.getLast?.getD first then [] else ':' :: b.toChars)
      a b := by
    split
    · rename_i single
      rw [← single, known] at known'
      cases known'
      rw [List.append_nil]
      exact .single (label_toChars writable)
    · have := Corners.pair (label_toChars writable) (.self [':']) (label_toChars writable')
      simpa using this
  have whole := Derives.range (.self op.name.toList) (.self ['(']) corners (.self [')']) resolved
  simpa [toChars, addressChars, known, known'] using whole

/-- By the level that the outermost operator stands on; each operand is derived on the level that
its side of the operator asks for. -/
theorem Restated.derived (h : Restated r addressOf f g) : Derived r addressOf f g := by
  induction h with
  | number literal => exact derived_of_primary (.number (numeral_formulaText literal)) rfl rfl
  | @reference cell target a known writable resolved =>
    have label : Label ((Formula.reference cell).toChars addressOf) a := by
      simpa [toChars, addressChars, known] using label_toChars writable
    exact derived_of_primary (.reference label resolved) rfl rfl
  | range known known' writable writable' resolved =>
    exact derived_of_primary (derives_range known known' writable writable' resolved) rfl rfl
  | negate _ ih => exact derived_of_factor (.minus (.self ['-']) ih.factor) (.inl rfl)
  | @binary op f f' g g' _ _ left right =>
    have text : (Formula.binary op f f').toChars addressOf =
        f.operandChars addressOf (leftBound op) ++ [op.symbol] ++
          f'.operandChars addressOf (rightBound op) := by simp [toChars_binary]
    cases op with
    | add =>
      refine derived_of_expression ?_ rfl
      rw [text, nesting_chain (by decide)]
      exact .sum (.inl rfl) left.expression (.self ['+']) right.term
    | sub =>
      refine derived_of_expression ?_ rfl
      rw [text, nesting_chain (by decide)]
      exact .sum (.inr rfl) left.expression (.self ['-']) right.term
    | mul =>
      refine derived_of_term ?_ rfl
      rw [text, nesting_chain (by decide)]
      exact .product (.inl rfl) left.term (.self ['*']) right.factor
    | div =>
      refine derived_of_term ?_ rfl
      rw [text, nesting_chain (by decide)]
      exact .product (.inr rfl) left.term (.self ['/']) right.factor
    | pow =>
      obtain ⟨n, nested, base⟩ := left.primary
      refine derived_of_factor ?_ (.inr rfl)
      rw [text, nesting_power, ← nested, Nat.succ_max_succ]
      exact .power base (.self ['^']) right.factor

theorem Restated.parseWithin (h : Restated r addressOf f g) {room : Nat} (nested : f.nesting ≤ room)
    (shallow : f.depth ≤ depthLimit) :
    Formula.parseWithin r room (f.toChars addressOf) = .ok g := by
  have level := one_le_precedence f
  have derived := h.derived.expression
  rw [operandChars_of_le level, nestingWithin_of_le level] at derived
  have nothing : Blank [] := by simp [Blank]
  rw [← List.append_nil (f.toChars addressOf)]
  exact parseWithin_of_derives derived nested (h.depth_eq ▸ shallow) nothing

theorem Restated.parse (h : Restated r addressOf f g) (nested : f.nesting ≤ nestingLimit)
    (shallow : f.depth ≤ depthLimit) : Formula.parse r (f.toChars addressOf) = .ok g :=
  parse_eq_parseWithin.trans (h.parseWithin nested shallow)

/-! The text has no blanks, so it can be typed. -/

theorem isBlank_of_mem_address {a : Address} : ∀ c ∈ a.toChars, Text.isBlank c = false := by
  intro c h
  rcases List.mem_append.mp h with letter | digit
  · exact (isUpper_facts (Column.isUpper_of_mem_label _ c letter)).2.2.2.2.2
  · exact (isNumberChar_facts (isNumberChar_iff.mpr
      (.inl (Text.isDigit_of_mem_toDigits c digit)))).2.2.2

theorem isBlank_of_mem_operand {bound : Nat} (h : ∀ c ∈ f.toChars addressOf, Text.isBlank c = false) :
    ∀ c ∈ f.operandChars addressOf bound, Text.isBlank c = false := by
  intro c member
  unfold operandChars parenthesized at member
  split at member
  · simp only [List.cons_append, List.mem_cons, List.mem_append, List.not_mem_nil, or_false] at member
    rcases member with rfl | member | rfl
    · decide
    · exact h c member
    · decide
  · exact h c member

theorem Restated.isBlank_of_mem (h : Restated r addressOf f g) :
    ∀ c ∈ f.toChars addressOf, Text.isBlank c = false := by
  induction h with
  | number literal =>
    obtain ⟨-, all⟩ := Number.formulaText_isNumberText literal
    exact fun c h => (isNumberChar_facts (isNumberChar_iff.mpr (all c h))).2.2.2
  | reference known =>
    simp only [toChars, addressChars, known]
    exact isBlank_of_mem_address
  | @range op first _ rest _ a b known known' =>
    obtain ⟨-, _, _, -, upper⟩ := name_facts op
    simp only [toChars, addressChars, known, known']
    intro c h
    simp only [List.mem_append, List.mem_cons, List.not_mem_nil, or_false] at h
    rcases h with ((name | rfl | corner) | corner) | rfl
    · exact (isUpper_facts (upper c name)).2.2.2.2.2
    · decide
    · exact isBlank_of_mem_address c corner
    · split at corner
      · cases corner
      · rcases List.mem_cons.mp corner with rfl | corner
        · decide
        · exact isBlank_of_mem_address c corner
    · decide
  | negate _ ih =>
    rw [toChars_negate]
    intro c h
    rcases List.mem_cons.mp h with rfl | h
    · decide
    · exact isBlank_of_mem_operand ih c h
  | @binary op _ _ _ _ _ _ ihl ihr =>
    rw [toChars_binary]
    intro c h
    simp only [List.mem_append, List.mem_cons] at h
    rcases h with h | rfl | h
    · exact isBlank_of_mem_operand ihl c h
    · cases op <;> decide
    · exact isBlank_of_mem_operand ihr c h

/-- What is rendered can be typed behind `=`, and gives the formula again. -/
theorem Restated.ofInput (h : Restated r addressOf f g) (nested : f.nesting ≤ nestingLimit)
    (shallow : f.depth ≤ depthLimit) :
    Formula.ofInput r ("=" ++ f.render addressOf) = .ok g := by
  have visible : ∀ c ∈ '=' :: f.toChars addressOf, Text.isBlank c = false := by
    intro c member
    rcases List.mem_cons.mp member with rfl | member
    · decide
    · exact h.isBlank_of_mem c member
  have trimmed : Text.trim ("=" ++ f.render addressOf).toList = '=' :: f.toChars addressOf := by
    have typed : ("=" ++ f.render addressOf).toList = '=' :: f.toChars addressOf := by
      simp [render]
    rw [typed, Text.trim_of_visible visible]
  unfold Formula.ofInput
  rw [trimmed]
  exact h.parse nested shallow

end Formula
end Spreadsheet
