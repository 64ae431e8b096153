import Spreadsheet.Proofs.Deletion

/-! Writing a formula never needs more room than typing it did. Whatever text a formula was read
from and wherever its cells are now, the text that is rendered has no more opening parentheses, and
reading it opens no more factors inside one another. -/
namespace Spreadsheet

namespace Formula

variable {addressOf : CellId → Option Address}

/-! Opening parentheses. Addresses and numbers have none. -/

theorem count_operandChars (bound : Nat) (f : Formula) : (f.operandChars addressOf bound).count '(' =
    (f.toChars addressOf).count '(' + if f.precedence < bound then 1 else 0 := by
  by_cases looser : f.precedence < bound
  · rw [operandChars_of_lt looser, if_pos looser, List.cons_append, List.count_cons_self,
      List.count_append, List.count_eq_zero.mpr (show '(' ∉ [')'] by decide), Nat.add_zero]
  · rw [operandChars_of_le (Nat.le_of_not_lt looser), if_neg looser, Nat.add_zero]

theorem count_operandChars_mono {low high : Nat} (h : low ≤ high) (f : Formula) :
    (f.operandChars addressOf low).count '(' ≤ (f.operandChars addressOf high).count '(' := by
  rw [count_operandChars, count_operandChars]
  split <;> split <;> omega

theorem count_addressChars (cell : CellId) : (addressChars addressOf cell).count '(' = 0 := by
  rw [List.count_eq_zero]
  unfold addressChars
  split
  · rename_i a _
    intro member
    rcases List.mem_append.mp member with letter | digit
    · exact absurd (Column.isUpper_of_mem_label _ _ letter) (by decide)
    · exact absurd (Text.isDigit_of_mem_toDigits _ digit) (by decide)
  · decide

theorem count_number {x : Float} (literal : Number.IsLiteral x) :
    ((number x).toChars addressOf).count '(' = 0 := by
  rw [List.count_eq_zero]
  intro member
  have char := (Number.formulaText_isNumberText literal).2 _ member
  exact absurd char (by decide)

theorem count_range (op : Aggregate) (first : CellId) (rest : List CellId) :
    ((range op first rest).toChars addressOf).count '(' = 1 := by
  have name : op.name.toList.count '(' = 0 := by cases op <;> decide
  have second (last : CellId) : (if first = last then [] else
      ':' :: addressChars addressOf last).count '(' = 0 := by
    split
    · rfl
    · rw [List.count_cons_of_ne (by decide), count_addressChars]
  simp only [toChars, List.count_append, List.count_cons_self, name, count_addressChars, second]
  rfl

theorem count_negate (f : Formula) : ((negate f).toChars addressOf).count '(' =
    (f.operandChars addressOf 3).count '(' := by
  rw [toChars_negate, List.count_cons_of_ne (by decide)]

theorem count_binary (op : BinaryOp) (left right : Formula) :
    ((binary op left right).toChars addressOf).count '(' =
      (left.operandChars addressOf (leftBound op)).count '(' +
        (right.operandChars addressOf (rightBound op)).count '(' := by
  have symbol : op.symbol ≠ '(' := by cases op <;> decide
  rw [toChars_binary, List.count_append, List.count_cons_of_ne symbol]

end Formula

namespace Grammar
open Formula

variable {r : Resolver} {addressOf : CellId → Option Address} {symbol : Symbol} {s : List Char}
  {f : Formula} {n : Nat}

theorem Token.count_eq {token s : List Char} (h : Token token s) {c : Char}
    (visible : Text.isBlank c = false) : s.count c = token.count c := by
  obtain ⟨blanks, blank, rfl⟩ := h
  have none : c ∉ blanks := fun member => by simp [blank c member] at visible
  rw [List.count_append, List.count_eq_zero.mpr none, Nat.zero_add]

/-- Where the tree asks for parentheses, each of its texts has them: on the level that a symbol
stands for, a tree that binds looser was derived in parentheses. -/
theorem Derives.count_operandChars_le (h : Derives r symbol s f n) :
    (f.operandChars addressOf symbol.level).count '(' ≤ s.count '(' := by
  induction h with
  | term _ ih | factor _ ih | primary _ ih =>
    exact (count_operandChars_mono (by decide) _).trans ih
  | @sum op _ _ _ _ _ _ _ isSum _ _ _ ihl ihr =>
    rcases isSum with rfl | rfl
    all_goals
      rw [operandChars_of_le (Nat.le_refl 1), count_binary, List.count_append, List.count_append]
      exact Nat.add_le_add (ihl.trans (Nat.le_add_right _ _)) ihr
  | @product op _ _ _ _ _ _ _ isProduct _ _ _ ihl ihr =>
    rcases isProduct with rfl | rfl
    all_goals
      rw [operandChars_of_le (Nat.le_refl 2), count_binary, List.count_append, List.count_append]
      exact Nat.add_le_add (ihl.trans (Nat.le_add_right _ _)) ihr
  | power _ _ _ ihl ihr =>
    rw [operandChars_of_le (show 3 ≤ 4 by decide), count_binary, List.count_append, List.count_append]
    exact Nat.add_le_add (ihl.trans (Nat.le_add_right _ _)) ihr
  | plus _ _ ih =>
    rw [List.count_append]
    exact ih.trans (Nat.le_add_left _ _)
  | minus _ _ ih =>
    rw [operandChars_of_le (Nat.le_refl 3), count_negate, List.count_append]
    exact ih.trans (Nat.le_add_left _ _)
  | number numeral =>
    obtain ⟨literal, -, -, -, value⟩ := numeral
    rw [operandChars_of_le (Nat.le_refl 5), count_number ⟨literal, value⟩]
    exact Nat.zero_le _
  | reference =>
    rw [operandChars_of_le (Nat.le_refl 5)]
    exact (count_addressChars _).le.trans (Nat.zero_le _)
  | range _ opening =>
    have one := opening.count_eq (c := '(') rfl
    rw [operandChars_of_le (Nat.le_refl 5), count_range]
    simp only [List.count_append, one, List.count_cons_self]
    omega
  | @parens _ _ _ f _ opening _ _ ih =>
    -- Those around the text are the ones that the tree may ask for.
    have one := opening.count_eq (c := '(') rfl
    have inner := (Nat.le_add_right _ _).trans ((count_operandChars 1 f).symm.le.trans ih)
    rw [count_operandChars]
    simp only [List.count_append, one, List.count_cons_self]
    split <;> omega

end Grammar

namespace Formula
open Spreadsheet.Parser

variable {r : Resolver} {addressOf : CellId → Option Address} {s : List Char} {f g : Formula} {n : Nat}

/-- No text that the formula is read from has fewer opening parentheses than its rendering. -/
theorem count_toChars_le (h : parse r s = .ok f) :
    (f.toChars addressOf).count '(' ≤ s.count '(' := by
  obtain ⟨body, blanks, rfl, -, -, n, -, derived⟩ := derives_of_parse h
  have fewer : (f.operandChars addressOf 1).count '(' ≤ body.count '(' :=
    derived.count_operandChars_le
  rw [operandChars_of_le (one_le_precedence f)] at fewer
  rw [List.count_append]
  exact fewer.trans (Nat.le_add_right _ _)

/-! Open factors. -/

/-- The most factors that are open at once while the text is read. Reading fails as soon as one
more is opened than there is room for, so this is the least room that is enough. -/
def mostOpen? (r : Resolver) (s : List Char) : Option Nat :=
  (List.range (nestingLimit + 1)).find? fun room => (parseWithin r room s).isOk

theorem mostOpen?_eq_some : mostOpen? r s = some n ↔ (∃ f, parseWithin r n s = .ok f) ∧
    n ≤ nestingLimit ∧ ∀ m < n, ∀ f, parseWithin r m s ≠ .ok f := by
  have isOk {x : Except ParseError Formula} : x.isOk ↔ ∃ f, x = .ok f := by
    cases x <;> simp [Except.isOk, Except.toBool]
  unfold mostOpen?
  rw [List.find?_range_eq_some, isOk, List.mem_range, Nat.lt_succ_iff]
  refine and_congr_right fun _ => and_congr_right fun _ => forall₂_congr fun m _ => ?_
  rw [Bool.not_eq_true', ← Bool.not_eq_true, isOk, not_exists]

theorem exists_mostOpen? (h : parseWithin r n s = .ok f) (fits : n ≤ nestingLimit) :
    ∃ m ≤ n, mostOpen? r s = some m ∧ parseWithin r m s = .ok f := by
  classical
  have some : ∃ m g, parseWithin r m s = .ok g := ⟨n, f, h⟩
  have least := Nat.find_min' some ⟨f, h⟩
  obtain ⟨g, read⟩ := Nat.find_spec some
  have same := (parseWithin_mono read least).symm.trans h
  cases same
  refine ⟨Nat.find some, least, mostOpen?_eq_some.mpr ⟨⟨f, read⟩, least.trans fits, ?_⟩, read⟩
  exact fun m less g read => Nat.find_min some less ⟨g, read⟩

theorem Restated.precedence_eq (h : Restated r addressOf f g) : g.precedence = f.precedence := by
  cases h with
  | number | reference | range | negate => rfl
  | @binary op => cases op <;> rfl

theorem Restated.nesting_eq (h : Restated r addressOf f g) : g.nesting = f.nesting := by
  induction h with
  | number | reference | range => rfl
  | negate operand ih => simp only [nesting, ih, operand.precedence_eq]
  | binary left right ihl ihr => simp only [nesting, ihl, ihr, left.precedence_eq, right.precedence_eq]

/-- The rendering needs the room that the tree says, no more and no less. -/
theorem Restated.mostOpen?_toChars (h : Restated r addressOf f g) (nested : f.nesting ≤ nestingLimit)
    (shallow : f.depth ≤ depthLimit) : mostOpen? r (f.toChars addressOf) = some f.nesting := by
  have read := h.parseWithin (Nat.le_refl f.nesting) shallow
  refine mostOpen?_eq_some.mpr ⟨⟨g, read⟩, nested, fun m less g' read' => ?_⟩
  have same := (parseWithin_mono read' less.le).symm.trans read
  cases same
  have enough := (parseWithin_fits read').2
  rw [h.nesting_eq] at enough
  exact absurd less (Nat.not_lt.mpr enough)

end Formula

namespace Sheet
open Formula

variable {s t : Sheet}

/-- On whatever sheet a formula was read: where its cells are named by places of the sheet `t`, its
text takes no more parentheses and no more room than the one that was read, and is read on `t`. -/
theorem render_fits_typed (reachable : t.Reachable) {text : String} {f : Formula}
    (parsed : Formula.parse s.resolver text.toList = .ok f) {addressOf : CellId → Option Address}
    (named : ∀ p ∈ f.ends, ∃ a, addressOf p = some a ∧ (t.idAt? a).isSome) :
    (f.render addressOf).toList.count '(' ≤ text.toList.count '(' ∧
      (∃ m n, mostOpen? s.resolver text.toList = some m ∧
        mostOpen? t.resolver (f.render addressOf).toList = some n ∧ n ≤ m) ∧
      ∃ g, Formula.parse t.resolver (f.render addressOf).toList = .ok g ∧
        Formula.ofInput t.resolver ("=" ++ f.render addressOf) = .ok g := by
  have laid := reachable.sound.laid
  obtain ⟨tree, nested⟩ := parse_fits parsed
  have writable : f.Writable addressOf := by
    refine ⟨fun leaf member => ⟨_, tree.leaves leaf member⟩, fun p isEnd => ?_⟩
    obtain ⟨a, known, on⟩ := named p isEnd
    exact ⟨a, known, laid.isWritable reachable.representable on⟩
  have onSheet : ∀ p ∈ f.ends, ∀ a, addressOf p = some a → (t.idAt? a).isSome := by
    intro p isEnd a known
    obtain ⟨b, known', on⟩ := named p isEnd
    cases known.symm.trans known'
    exact on
  obtain ⟨g, restated⟩ := exists_restated_of_onSheet laid writable onSheet
  have rendered : (f.render addressOf).toList = f.toChars addressOf := String.toList_ofList
  obtain ⟨m, -, opened, read⟩ := exists_mostOpen?
    (parse_eq_parseWithin.symm.trans parsed) (Nat.le_refl _)
  rw [rendered]
  exact ⟨count_toChars_le parsed,
    ⟨m, f.nesting, opened, restated.mostOpen?_toChars nested tree.depth_le, (parseWithin_fits read).2⟩,
    g, restated.parse nested tree.depth_le, restated.ofInput nested tree.depth_le⟩

/-- Five parentheses are typed, and three come out, also where the cells have moved. -/
theorem render_fits_typed_sample : ∃ f,
    Formula.parse sample.resolver " +(SUM( A3:A1 )) - (B1-(-3)^(2^.50))".toList = .ok f ∧
      f.render sampleMoved.addressOf = "SUM(A2:A4)-(B2-(-3)^2^0.5)" ∧
      (f.render sampleMoved.addressOf).toList.count '(' ≤
        " +(SUM( A3:A1 )) - (B1-(-3)^(2^.50))".toList.count '(' ∧
      ∃ m n, mostOpen? sample.resolver " +(SUM( A3:A1 )) - (B1-(-3)^(2^.50))".toList = some m ∧
        mostOpen? sampleMoved.resolver (f.render sampleMoved.addressOf).toList = some n ∧ n ≤ m := by
  have parsed : Formula.parse sample.resolver " +(SUM( A3:A1 )) - (B1-(-3)^(2^.50))".toList =
      .ok (.binary .sub (.range .sum ⟨0⟩ [⟨4⟩, ⟨1⟩]) (.binary .sub (.reference ⟨2⟩)
        (.binary .pow (.negate (.number 3)) (.binary .pow (.number 2) (.number 0.5))))) := by
    decide +kernel
  have reachable : sampleMoved.Reachable := reachable_sample.apply _ (by decide +kernel)
  have live : ∀ p ∈ [⟨0⟩, ⟨1⟩, ⟨2⟩], (sampleMoved.cells.get? p).isSome := by decide +kernel
  have fits := render_fits_typed reachable parsed fun p isEnd => by
    obtain ⟨a, known, on⟩ := reachable.sound.laid.exists_addressOf (live p isEnd)
    exact ⟨a, known, Option.isSome_of_eq_some on⟩
  exact ⟨_, parsed, by decide +kernel, fits.1, fits.2.1⟩

end Sheet
end Spreadsheet
