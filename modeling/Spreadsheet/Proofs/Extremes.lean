import Spreadsheet.Formula
import Spreadsheet.Proofs.NumberOrder

/-! The largest and the smallest number of a range: where a number stands in it does not matter,
unless a NaN stands in front. -/
namespace Spreadsheet

/-! The best element of a list by a strict order, the first of those that are equally good. -/
section best
variable {α : Type} (better : α → α → Prop) [DecidableRel better]

/-- An element that is better than the best before it takes its place. -/
def best (first : α) (rest : List α) : α :=
  rest.foldl (fun old new => if better old new then new else old) first

theorem best_cons (first a : α) (rest : List α) :
    best better first (a :: rest) = best better (if better first a then a else first) rest := rfl

theorem best_mem (first : α) (rest : List α) : best better first rest ∈ first :: rest := by
  induction rest generalizing first with
  | nil => exact List.mem_cons_self
  | cons a rest ih =>
    rw [best_cons]
    split
    · exact List.mem_cons_of_mem _ (ih a)
    · rcases List.mem_cons.mp (ih first) with same | later
      · rw [same]
        exact List.mem_cons_self
      · exact List.mem_cons_of_mem _ (List.mem_cons_of_mem _ later)

variable [IsStrictOrder α better]

theorem best_eq_or_better (first : α) (rest : List α) :
    best better first rest = first ∨ better first (best better first rest) := by
  induction rest generalizing first with
  | nil => exact .inl rfl
  | cons a rest ih =>
    rw [best_cons]
    split
    · rename_i replaced
      rcases ih a with same | above
      · rw [same]
        exact .inr replaced
      · exact .inr (IsTrans.trans _ _ _ replaced above)
    · exact ih first

theorem not_better_best (first : α) (rest : List α) :
    ∀ a ∈ first :: rest, ¬ better (best better first rest) a := by
  induction rest generalizing first with
  | nil =>
    intro a member
    rw [List.mem_singleton.mp member]
    exact Std.Irrefl.irrefl first
  | cons b rest ih =>
    rw [best_cons]
    split
    · rename_i replaced
      obtain ⟨top, others⟩ := List.forall_mem_cons.mp (ih b)
      refine List.forall_mem_cons.mpr ⟨fun above => ?_, List.forall_mem_cons.mpr ⟨top, others⟩⟩
      exact top (IsTrans.trans _ _ _ above replaced)
    · rename_i kept
      obtain ⟨top, others⟩ := List.forall_mem_cons.mp (ih first)
      refine List.forall_mem_cons.mpr ⟨top, List.forall_mem_cons.mpr ⟨fun above => ?_, others⟩⟩
      rcases best_eq_or_better better first rest with same | up
      · rw [same] at above
        exact kept above
      · exact kept (IsTrans.trans _ _ _ up above)

end best

/-- A strict order of the numbers other than NaN, in which only the two zeros are on a par. -/
structure OrdersNumbers (better : Float → Float → Prop) : Prop extends
    IsStrictOrder Float better where
  numbers : ∀ {x y}, better x y → x ≠ .nan ∧ y ≠ .nan
  tied : ∀ {x y}, x ≠ .nan → y ≠ .nan → ¬ better x y → ¬ better y x → x == y

theorem ordersNumbers_lt : OrdersNumbers (· < ·) where
  irrefl x less := lt_irrefl _ (Number.lt_iff.mp less).2.2
  trans x y z lower upper := by
    obtain ⟨hx, -, below⟩ := Number.lt_iff.mp lower
    obtain ⟨-, hz, above⟩ := Number.lt_iff.mp upper
    exact Number.lt_iff.mpr ⟨hx, hz, below.trans above⟩
  numbers less := ⟨(Number.lt_iff.mp less).1, (Number.lt_iff.mp less).2.1⟩
  tied hx hy notLess notGreater := by
    refine Number.beq_of_rank_eq hx hy (le_antisymm ?_ ?_)
    · exact not_lt.mp fun less => notGreater (Number.lt_iff.mpr ⟨hy, hx, less⟩)
    · exact not_lt.mp fun less => notLess (Number.lt_iff.mpr ⟨hx, hy, less⟩)

namespace OrdersNumbers
variable {better : Float → Float → Prop}

theorem swap (orders : OrdersNumbers better) : OrdersNumbers fun x y => better y x where
  irrefl := orders.irrefl
  trans _ _ _ lower upper := orders.trans _ _ _ upper lower
  numbers less := (orders.numbers less).symm
  tied hx hy notLess notGreater := orders.tied hx hy notGreater notLess

variable [DecidableRel better]

/-- A NaN in front stays, and one behind is passed over. -/
theorem best_eq_nan (orders : OrdersNumbers better) (first : Float) (rest : List Float) :
    best better first rest = .nan ↔ first = .nan := by
  have := orders.toIsStrictOrder
  rcases best_eq_or_better better first rest with same | above
  · rw [same]
  · obtain ⟨front, found⟩ := orders.numbers above
    exact iff_of_false found front

theorem best_perm (orders : OrdersNumbers better) {first first' : Float} {rest rest' : List Float}
    (perm : (first :: rest).Perm (first' :: rest')) :
    (Value.number (best better first rest)).Same (.number (best better first' rest')) ↔
      (first = .nan ↔ first' = .nan) := by
  have := orders.toIsStrictOrder
  have notBelow := not_better_best better first rest _ (perm.mem_iff.mpr (best_mem better first' rest'))
  have notAbove := not_better_best better first' rest' _ (perm.mem_iff.mp (best_mem better first rest))
  rw [← orders.best_eq_nan first rest, ← orders.best_eq_nan first' rest']
  generalize best better first rest = x at *
  generalize best better first' rest' = y at *
  by_cases front : x = .nan
  · subst front
    exact Value.same_nan.trans (by simp [Value.nan])
  · by_cases front' : y = .nan
    · subst front'
      have apart : ¬ (Value.number x).Same .nan := fun same =>
        front (Value.number.inj (Value.same_nan.mp same.symm))
      exact iff_of_false apart (by simp [front])
    · have tied := orders.tied front front' notBelow notAbove
      exact iff_of_true (Value.same_of_beq tied) (iff_of_false front front')

end OrdersNumbers

theorem Aggregate.exists_apply_eq_best {op : Aggregate} (extreme : op = .maximum ∨ op = .minimum) :
    ∃ (better : Float → Float → Prop) (_ : DecidableRel better), OrdersNumbers better ∧
      ∀ first rest, op.apply first rest = best better first rest := by
  rcases extreme with rfl | rfl
  · exact ⟨(· < ·), inferInstance, ordersNumbers_lt, fun _ _ => rfl⟩
  · exact ⟨(· > ·), inferInstance, ordersNumbers_lt.swap, fun _ _ => rfl⟩

namespace Formula

theorem asNumber_eq_nan (v : Option Value) :
    (v.map Value.asNumber).getD 0 = .nan ↔ v = some .nan := by
  have zero : (0 : Float) ≠ .nan := by decide +kernel
  rcases v with _ | n | t
  · simpa using zero
  · simp [Value.asNumber, Value.nan]
  · simpa [Value.asNumber, Value.nan] using zero

/-- A cell moved to another place in a range changes the largest and the smallest number only if a
NaN comes to the front or leaves it. -/
theorem evaluate_extreme_perm {op : Aggregate} (extreme : op = .maximum ∨ op = .minimum)
    {first first' : CellId} {rest rest' : List CellId}
    (perm : (first :: rest).Perm (first' :: rest')) (values : CellId → Option Value) :
    ((range op first rest).evaluate values).Same ((range op first' rest').evaluate values) ↔
      (values first = some .nan ↔ values first' = some .nan) := by
  obtain ⟨better, _, orders, apply⟩ := Aggregate.exists_apply_eq_best extreme
  have numbers := perm.map fun cell => ((values cell).map Value.asNumber).getD 0
  rw [List.map_cons, List.map_cons] at numbers
  simp only [evaluate, apply]
  rw [orders.best_perm numbers, asNumber_eq_nan, asNumber_eq_nan]

/-- A NaN, a number, a text, and nothing. -/
def sampleValues (cell : CellId) : Option Value :=
  [.nan, .number 4, .text "x"][cell.index]?

/-- Behind the others the NaN may stand anywhere. -/
theorem evaluate_extreme_perm_sample :
    ((range .maximum ⟨1⟩ [⟨0⟩, ⟨2⟩, ⟨3⟩]).evaluate sampleValues).Same
        ((range .maximum ⟨3⟩ [⟨2⟩, ⟨1⟩, ⟨0⟩]).evaluate sampleValues) ∧
      (range .maximum ⟨3⟩ [⟨2⟩, ⟨1⟩, ⟨0⟩]).evaluate sampleValues = .number 4 := by
  constructor
  · refine (evaluate_extreme_perm (.inl rfl) ?_ sampleValues).mpr ?_
    · decide
    · decide +kernel
  · decide +kernel

/-- In front it is the result. -/
theorem not_same_of_nan_front : ¬ ∀ op, op = .maximum ∨ op = .minimum →
    ∀ first rest first' rest', (first :: rest).Perm (first' :: rest') → ∀ values,
      ((range op first rest).evaluate values).Same ((range op first' rest').evaluate values) := by
  intro all
  have same := all .maximum (.inl rfl) ⟨0⟩ [⟨1⟩] ⟨1⟩ [⟨0⟩] (by decide) sampleValues
  rcases same with same | ⟨zero, -⟩
  · revert same
    decide +kernel
  · revert zero
    unfold Value.IsZero
    decide +kernel

end Formula
end Spreadsheet
