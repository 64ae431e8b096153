import Spreadsheet.Proofs.RenderingRoundTrip

/-! What the grid shows of a finite number can be typed back. The sign is read as an operator, and
a zero is shown without one. -/
namespace Spreadsheet

namespace Number
variable {x : Float}

/-- A zero loses its sign. -/
def shown (x : Float) : Float := if magnitude x = 0 then 0 else x

theorem magnitude_eq_zero : magnitude x = 0 ↔ x == 0 := by
  constructor
  · intro zero
    have zeros : x = 0 ∨ x = -0 := by
      cases sign : isNegative x with
      | false => exact .inl (eq_of_magnitude_eq (by rw [zero]; rfl) (by rw [sign]; rfl))
      | true => exact .inr (eq_of_magnitude_eq (by rw [zero]; rfl) (by rw [sign]; rfl))
    rcases zeros with rfl | rfl <;> decide +kernel
  · intro zero
    obtain ⟨-, -, rfl | ⟨rfl, -⟩ | ⟨rfl, -⟩⟩ := Float.beq_iff_ne_nan_and_eq.mp zero <;> rfl

theorem shown_of_zero (zero : x == 0) : shown x = 0 := if_pos (magnitude_eq_zero.mpr zero)

theorem isFinite_shown (finite : x.isFinite) : (shown x).isFinite := by
  unfold shown
  split
  · decide +kernel
  · exact finite

theorem shown_beq (finite : x.isFinite) : shown x == x := by
  unfold shown
  split
  · rename_i zero
    obtain ⟨-, -, rfl | ⟨rfl, -⟩ | ⟨rfl, -⟩⟩ :=
      Float.beq_iff_ne_nan_and_eq.mp (magnitude_eq_zero.mp zero) <;> decide +kernel
  · exact Float.beq_self_iff.mpr (ne_nan_of_isFinite finite)

theorem gridText_eq_formulaText (finite : x.isFinite) : gridText x = formulaText (shown x) := by
  unfold gridText shown
  rw [isNaN_of_isFinite finite, isInf_of_isFinite finite, if_neg Bool.false_ne_true,
    if_neg Bool.false_ne_true]
  split
  · decide +kernel
  · rfl

end Number

namespace Formula
variable {r : Resolver} {addressOf : CellId → Option Address} {f g : Formula} {x : Float}

/-- What starts as arithmetic is read as a formula, with no `=` in front. -/
theorem Restated.ofInput_render (h : Restated r addressOf f g)
    (nested : f.nesting ≤ Parser.nestingLimit) (shallow : f.depth ≤ Parser.depthLimit)
    {first : Char} {s : List Char} (text : f.toChars addressOf = first :: s)
    (starts : first.isDigit ∨ first ∈ ['.', '+', '-', '(']) :
    Formula.ofInput r (f.render addressOf) = .ok g := by
  have trimmed : Text.trim (f.render addressOf).toList = first :: s := by
    rw [render, String.toList_ofList, Text.trim_of_visible h.isBlank_of_mem, text]
  have notEquals : first ≠ '=' := by
    rintro rfl
    revert starts
    decide
  have notQuote : first ≠ '"' := by
    rintro rfl
    revert starts
    decide
  unfold Formula.ofInput
  rw [trimmed]
  split
  · contradiction
  · rename_i same
    exact absurd (List.cons.inj same).1 notEquals
  · rename_i same
    obtain ⟨rfl, rfl⟩ := List.cons.inj same
    rw [if_neg fun quoted => notQuote quoted.1, if_pos starts, ← text]
    exact h.parse nested shallow

/-- The tree of a finite number's text. -/
def ofNumber (x : Float) : Formula :=
  if Number.isNegative x then .negate (.number (-x)) else .number x

theorem ofNumber_fits (x : Float) :
    (ofNumber x).nesting ≤ Parser.nestingLimit ∧ (ofNumber x).depth ≤ Parser.depthLimit := by
  unfold ofNumber
  split
  · exact ⟨show 2 ≤ 256 by decide, show 2 ≤ 1024 by decide⟩
  · exact ⟨show 1 ≤ 256 by decide, show 1 ≤ 1024 by decide⟩

theorem evaluate_ofNumber (finite : x.isFinite) (values : CellId → Option Value) :
    (ofNumber x).evaluate values = .number x := by
  unfold ofNumber
  split
  · exact congrArg Value.number (Number.neg_neg_of_isFinite finite)
  · rfl

theorem restated_ofNumber (finite : x.isFinite) :
    Restated r addressOf (ofNumber x) (ofNumber x) := by
  unfold ofNumber
  split
  · rename_i sign
    have unsigned : Number.isNegative (-x) = false := by
      rw [(Number.bits_neg (Number.ne_nan_of_isFinite finite)).2, sign]
      rfl
    exact .negate (.number (Number.isLiteral_of_isFinite (Number.isFinite_neg finite) unsigned))
  · rename_i sign
    exact .number (Number.isLiteral_of_isFinite finite (Bool.eq_false_of_not_eq_true sign))

theorem toChars_ofNumber (finite : x.isFinite) :
    (ofNumber x).toChars addressOf = Number.formulaText x := by
  unfold ofNumber
  split
  · rename_i sign
    obtain ⟨magnitude, turned⟩ := Number.bits_neg (Number.ne_nan_of_isFinite finite)
    rw [toChars_negate, operandChars_of_le (show 3 ≤ 5 by decide)]
    show '-' :: Number.formulaText (-x) = Number.formulaText x
    unfold Number.formulaText
    rw [Number.isNaN_of_isFinite finite, Number.isNaN_of_isFinite (Number.isFinite_neg finite),
      turned, sign, magnitude]
    rfl
  · rfl

theorem exists_toChars_ofNumber_eq_cons (finite : x.isFinite)
    (addressOf : CellId → Option Address) :
    ∃ first s, (ofNumber x).toChars addressOf = first :: s ∧
      (first.isDigit ∨ first ∈ ['.', '+', '-', '(']) := by
  unfold ofNumber
  split
  · exact ⟨'-', _, rfl, .inr (by decide)⟩
  · rename_i sign
    obtain ⟨nonempty, all⟩ := Number.formulaText_isNumberText
      (Number.isLiteral_of_isFinite finite (Bool.eq_false_of_not_eq_true sign))
    obtain ⟨first, s, text⟩ := List.exists_cons_of_ne_nil nonempty
    refine ⟨first, s, text, (all first (by simp [text])).imp_right ?_⟩
    rintro rfl
    decide

/-- What is shown of a finite number can be typed back, with any resolver or with none: it is read
as a formula of an equal number, which is zero without a sign if the number was a zero. -/
theorem ofInput_gridText (finite : x.isFinite) (r : Resolver) : ∃ f n,
    ofInput r (String.ofList (Number.gridText x)) = .ok f ∧
      (∀ values, f.evaluate values = .number n) ∧ n == x ∧ (x == 0 → n = 0) := by
  have shown := Number.isFinite_shown finite
  obtain ⟨first, s, text, starts⟩ :=
    exists_toChars_ofNumber_eq_cons shown (fun _ => none)
  obtain ⟨nested, shallow⟩ := ofNumber_fits (Number.shown x)
  have read := (restated_ofNumber (r := r) shown).ofInput_render nested shallow text starts
  rw [render, toChars_ofNumber shown, ← Number.gridText_eq_formulaText finite] at read
  exact ⟨_, _, read, evaluate_ofNumber shown, Number.shown_beq finite, Number.shown_of_zero⟩

/-- The least negative number that is not zero, and the negative zero. -/
theorem ofInput_gridText_sample :
    (Float.ofBits 0x8000000000000001).isFinite ∧ (Float.ofBits 0x8000000000000000).isFinite ∧
    (Number.gridText (Float.ofBits 0x8000000000000001)).length = 327 ∧
    Number.gridText (Float.ofBits 0x8000000000000000) = ['0'] ∧
    (∃ f n, ofInput .none (String.ofList (Number.gridText (Float.ofBits 0x8000000000000001))) =
      .ok f ∧ (∀ values, f.evaluate values = .number n) ∧ n == Float.ofBits 0x8000000000000001) ∧
    ∃ f, ofInput .none "0" = .ok f ∧ ∀ values, f.evaluate values = .number 0 := by
  have least : (Float.ofBits 0x8000000000000001).isFinite := by decide +kernel
  have zero : (Float.ofBits 0x8000000000000000).isFinite := by decide +kernel
  have text : Number.gridText (Float.ofBits 0x8000000000000000) = ['0'] := by decide +kernel
  refine ⟨least, zero, by decide +kernel, text, ?_, ?_⟩
  · obtain ⟨f, n, read, value, same, -⟩ := ofInput_gridText least .none
    exact ⟨f, n, read, value, same⟩
  · obtain ⟨f, n, read, value, -, unsigned⟩ := ofInput_gridText zero .none
    rw [text] at read
    rw [unsigned (by decide +kernel)] at value
    exact ⟨f, read, value⟩

end Formula
end Spreadsheet
