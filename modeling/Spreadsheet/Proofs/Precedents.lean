import Mathlib
import Spreadsheet.Formula

/-! What a formula reads: its precedents are the cells that stand in its tree, in the order in which
they first appear there, and its value depends on nothing else. -/
namespace Spreadsheet

/-! Lists without their repetitions. -/
section eraseDups
variable {α : Type} [DecidableEq α]

theorem eraseDups_filter (keep : α → Bool) (as : List α) :
    (as.filter keep).eraseDups = as.eraseDups.filter keep := by
  cases as with
  | nil => rfl
  | cons a as =>
    have rest := eraseDups_filter keep (as.filter fun b => !b == a)
    rw [List.filter_filter] at rest
    rw [List.eraseDups_cons]
    by_cases kept : keep a
    · rw [List.filter_cons_of_pos kept, List.filter_cons_of_pos kept, List.eraseDups_cons,
        List.filter_filter, ← rest]
      simp only [Bool.and_comm]
    · have others : as.filter keep = as.filter fun b => keep b && !b == a := by
        refine List.filter_congr fun b _ => ?_
        by_cases same : b = a
        · simp [same, kept]
        · simp [same]
      rw [List.filter_cons_of_neg kept, List.filter_cons_of_neg kept, ← rest, others]
termination_by as.length
decreasing_by exact Nat.lt_succ_of_le (List.length_filter_le _ _)

/-- What is left stands in the order of the first occurrences. -/
theorem pairwise_eraseDups (as : List α) : as.eraseDups.Pairwise fun a b =>
    ∃ i : Nat, as[i]? = some a ∧ ∀ j : Nat, as[j]? = some b → i < j := by
  induction as with
  | nil => exact .nil
  | cons c as ih =>
    rw [List.eraseDups_cons, eraseDups_filter, List.pairwise_cons, List.pairwise_filter]
    constructor
    · intro b member
      have other : b ≠ c := by simpa using (List.mem_filter.mp member).2
      refine ⟨0, rfl, fun j there => Nat.pos_of_ne_zero ?_⟩
      rintro rfl
      exact other (Option.some.inj there).symm
    · refine ih.imp fun ⟨i, here, earlier⟩ _ other => ⟨i + 1, here, fun j there => ?_⟩
      cases j with
      | zero => simp [Option.some.inj there] at other
      | succ j => exact Nat.succ_lt_succ (earlier j there)

end eraseDups

namespace Formula
variable {op : BinaryOp} {f left right operand : Formula} {p q : CellId} {place : List Nat}

/-- The formula names a cell at a place of its tree. A place is the way down from the root, by the
number of the branch at each node, so an order of places by their first difference is one from left
to right. -/
inductive NamesAt : Formula → List Nat → CellId → Prop
  | reference {p : CellId} : NamesAt (.reference p) [] p
  | range {op : Aggregate} {first p : CellId} {rest : List CellId} {i : Nat} :
      (first :: rest)[i]? = some p → NamesAt (.range op first rest) [i] p
  | operand {f : Formula} {place : List Nat} {p : CellId} :
      NamesAt f place p → NamesAt (.negate f) (0 :: place) p
  | left {op : BinaryOp} {f g : Formula} {place : List Nat} {p : CellId} :
      NamesAt f place p → NamesAt (.binary op f g) (0 :: place) p
  | right {op : BinaryOp} {f g : Formula} {place : List Nat} {p : CellId} :
      NamesAt g place p → NamesAt (.binary op f g) (1 :: place) p

theorem NamesAt.mem_precedents (named : f.NamesAt place p) : p ∈ f.precedents := by
  rw [Formula.mem_precedents]
  induction named with
  | reference => exact List.mem_cons_self
  | range listed => exact List.mem_of_getElem? listed
  | operand _ ih => exact ih
  | left _ ih => exact List.mem_append_left _ ih
  | right _ ih => exact List.mem_append_right _ ih

theorem exists_namesAt (read : p ∈ f.precedents) : ∃ place, f.NamesAt place p := by
  rw [mem_precedents] at read
  induction f with
  | number | text => exact absurd read List.not_mem_nil
  | reference cell =>
    obtain rfl := List.mem_singleton.mp read
    exact ⟨[], .reference⟩
  | range op first rest =>
    obtain ⟨i, listed⟩ := List.mem_iff_getElem?.mp read
    exact ⟨[i], .range listed⟩
  | negate operand ih =>
    obtain ⟨place, named⟩ := ih read
    exact ⟨0 :: place, .operand named⟩
  | binary op left right ihl ihr =>
    rcases List.mem_append.mp read with read | read
    · obtain ⟨place, named⟩ := ihl read
      exact ⟨0 :: place, .left named⟩
    · obtain ⟨place, named⟩ := ihr read
      exact ⟨1 :: place, .right named⟩

/-- Some place of `p` lies to the left of all places of `q`. -/
def AppearsBefore (f : Formula) (p q : CellId) : Prop :=
  ∃ place, f.NamesAt place p ∧ ∀ other, f.NamesAt other q → place < other

theorem AppearsBefore.ne (before : f.AppearsBefore p q) : p ≠ q := by
  rintro rfl
  obtain ⟨place, named, earlier⟩ := before
  exact List.lt_irrefl place (earlier place named)

theorem appearsBefore_of_not_mem (read : p ∈ f.precedents) (fresh : q ∉ f.precedents) :
    f.AppearsBefore p q := by
  obtain ⟨place, named⟩ := exists_namesAt read
  exact ⟨place, named, fun other there => absurd there.mem_precedents fresh⟩

theorem AppearsBefore.inOperand (before : operand.AppearsBefore p q) :
    (negate operand).AppearsBefore p q := by
  obtain ⟨place, named, earlier⟩ := before
  refine ⟨0 :: place, .operand named, fun other there => ?_⟩
  cases there with
  | operand there => exact List.cons_lt_cons_self.mpr (earlier _ there)

theorem AppearsBefore.inLeft (before : left.AppearsBefore p q) :
    (binary op left right).AppearsBefore p q := by
  obtain ⟨place, named, earlier⟩ := before
  refine ⟨0 :: place, .left named, fun other there => ?_⟩
  cases there with
  | left there => exact List.cons_lt_cons_self.mpr (earlier _ there)
  | right _ => exact List.cons_lt_cons_iff.mpr (.inl Nat.zero_lt_one)

theorem AppearsBefore.inRight (fresh : q ∉ left.precedents) (before : right.AppearsBefore p q) :
    (binary op left right).AppearsBefore p q := by
  obtain ⟨place, named, earlier⟩ := before
  refine ⟨1 :: place, .right named, fun other there => ?_⟩
  cases there with
  | left there => exact absurd there.mem_precedents fresh
  | right there => exact List.cons_lt_cons_self.mpr (earlier _ there)

theorem precedents_negate : (negate operand).precedents = operand.precedents := rfl

/-- The right operand adds what the left one does not read. -/
theorem precedents_binary : (binary op left right).precedents =
    left.precedents ++ right.precedents.filter (· ∉ left.precedents) := by
  have fresh : right.cells.removeAll left.cells = right.cells.filter (· ∉ left.precedents) := by
    simp [List.removeAll, mem_precedents]
  unfold precedents at fresh ⊢
  rw [cells, List.eraseDups_append, fresh, eraseDups_filter]

theorem pairwise_precedents (f : Formula) : f.precedents.Pairwise f.AppearsBefore := by
  induction f with
  | number | text => exact .nil
  | reference cell => exact List.pairwise_singleton _ cell
  | range op first rest =>
    refine (pairwise_eraseDups (first :: rest)).imp fun ⟨i, here, earlier⟩ => ?_
    refine ⟨[i], .range here, fun other there => ?_⟩
    cases there with
    | range there => exact List.cons_lt_cons_iff.mpr (.inl (earlier _ there))
  | negate operand ih =>
    rw [precedents_negate]
    exact ih.imp .inOperand
  | binary op left right ihl ihr =>
    rw [precedents_binary, List.pairwise_append, List.pairwise_filter]
    -- what the right operand adds, the left one does not name, so its first place is on the right
    refine ⟨ihl.imp .inLeft, ihr.imp fun before _ fresh => ?_, fun p read q added => ?_⟩
    · exact before.inRight (of_decide_eq_true fresh)
    · have fresh : q ∉ left.precedents := of_decide_eq_true (List.mem_filter.mp added).2
      exact (appearsBefore_of_not_mem read fresh).inLeft

theorem nodup_precedents (f : Formula) : f.precedents.Nodup :=
  f.pairwise_precedents.imp AppearsBefore.ne

theorem precedents_eq_nil : f.precedents = [] ↔ f.cells = [] := by
  simp only [List.eq_nil_iff_forall_not_mem, mem_precedents]

/-- Only the values of the cells that a formula reads matter to it. -/
theorem evaluate_congr {values values' : CellId → Option Value}
    (same : ∀ p ∈ f.precedents, values p = values' p) : f.evaluate values = f.evaluate values' := by
  simp only [mem_precedents] at same
  induction f with
  | number n => rfl
  | text s => rfl
  | reference cell =>
    unfold evaluate
    rw [same cell (by simp [cells])]
  | range op first rest =>
    have others : rest.map (fun cell => ((values cell).map Value.asNumber).getD 0) =
        rest.map (fun cell => ((values' cell).map Value.asNumber).getD 0) := by
      apply List.map_congr_left
      intro cell member
      rw [same cell (by simp [cells, member])]
    simp only [evaluate, others, same first (by simp [cells])]
  | negate operand ih =>
    unfold evaluate
    rw [ih same]
  | binary op left right ihl ihr =>
    unfold evaluate
    rw [ihl fun p h => same p (List.mem_append_left _ h),
      ihr fun p h => same p (List.mem_append_right _ h)]

/-- The precedents are the cells named in the tree, each once and in the order of their first
places, and they are all that the value depends on. There are none just in a formula without
references, as a range has a cell. -/
theorem precedents_exact (f : Formula) :
    f.precedents.Nodup ∧
    (∀ p, p ∈ f.precedents ↔ ∃ place, f.NamesAt place p) ∧
    f.precedents.Pairwise f.AppearsBefore ∧
    (∀ values values' : CellId → Option Value, (∀ p ∈ f.precedents, values p = values' p) →
      f.evaluate values = f.evaluate values') ∧
    (f.hasReferences = true ↔ f.precedents ≠ []) := by
  refine ⟨f.nodup_precedents, fun p => ⟨exists_namesAt, fun ⟨_, named⟩ => named.mem_precedents⟩,
    f.pairwise_precedents, fun values values' same => evaluate_congr same, ?_⟩
  rw [hasReferences_iff, ne_eq, ne_eq, precedents_eq_nil]

/-- A cell named twice, once inside a range. -/
def sampleTree : Formula :=
  .binary .add (.reference ⟨2⟩) (.negate (.range .sum ⟨1⟩ [⟨2⟩, ⟨3⟩]))

/-- A number that the tree does not read, a text, a number, and nothing. -/
def sampleSource (unread : Float) (cell : CellId) : Option Value :=
  [.number unread, .text "x", .number 4][cell.index]?

theorem precedents_exact_sample :
    sampleTree.precedents = [⟨2⟩, ⟨1⟩, ⟨3⟩] ∧
    sampleTree.AppearsBefore ⟨2⟩ ⟨1⟩ ∧
    sampleTree.hasReferences = true ∧
    sampleSource 5 ⟨0⟩ ≠ sampleSource 7 ⟨0⟩ ∧
    sampleTree.evaluate (sampleSource 5) = sampleTree.evaluate (sampleSource 7) := by
  have listed : sampleTree.precedents = [⟨2⟩, ⟨1⟩, ⟨3⟩] := by decide
  obtain ⟨-, -, ordered, evaluated, references⟩ := precedents_exact sampleTree
  rw [listed] at ordered evaluated references
  refine ⟨listed, ?_, references.mpr (List.cons_ne_nil _ _), by decide +kernel, ?_⟩
  · exact List.rel_of_pairwise_cons ordered List.mem_cons_self
  · exact evaluated _ _ (by decide +kernel)

end Formula
end Spreadsheet
