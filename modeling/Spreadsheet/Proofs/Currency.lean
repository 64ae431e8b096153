import Spreadsheet.Proofs.DependencyOrder

/-! Recomputing cells, each after those that it reads, brings them all up to date. -/
namespace Spreadsheet

namespace Sheet

variable {s : Sheet}

/-- The value of the cell is what its formula comes to on the values of the others. -/
def Current (s : Sheet) (id : CellId) : Prop :=
  ∀ c, s.cells.get? id = some c → c.value = c.formula.evaluate s.cells.valueOf

theorem get?_recompute (s : Sheet) (id q : CellId) : (s.recompute id).cells.get? q =
    (s.cells.get? q).map fun c => if q = id then c.recompute s.cells.valueOf else c := by
  unfold recompute recomputed?
  cases found : s.cells.get? id with
  | none =>
    simp only [Option.map_none]
    cases here : s.cells.get? q with
    | none => rfl
    | some c =>
      have other : q ≠ id := by
        rintro rfl
        simp [found] at here
      simp [other]
  | some c =>
    simp only [Option.map_some]
    rw [CellStore.get?_set (by simp [found])]
    by_cases same : q = id
    · subst same
      simp [found]
    · rw [if_neg (Ne.symm same)]
      simp [same]

theorem sameFrame_recompute (s : Sheet) (id : CellId) : SameFrame s (s.recompute id) := by
  unfold recompute
  split
  · exact .refl s
  · exact ⟨rfl, rfl, rfl, rfl⟩

theorem alike_recompute {α : Type} {view : Cell → α}
    (keeps : ∀ c values, view (c.recompute values) = view c) (s : Sheet) (id : CellId) :
    Alike view s (s.recompute id) where
  columns := (sameFrame_recompute s id).columns
  height := (sameFrame_recompute s id).height
  cells := by
    intro q
    rw [get?_recompute, Option.map_map]
    apply Option.map_congr
    intro c _
    simp only [Function.comp_apply]
    split
    · exact keeps c _
    · rfl

theorem revalued_recompute (s : Sheet) (id : CellId) : Revalued s (s.recompute id) :=
  ⟨sameFrame_recompute s id, (alike_recompute (fun _ _ => rfl) s id).cells⟩

theorem valueOf_recompute {id q : CellId} (other : q ≠ id) :
    (s.recompute id).cells.valueOf q = s.cells.valueOf q := by
  unfold CellStore.valueOf
  rw [get?_recompute]
  simp [other]

/-- The new value does not reach a formula that does not read the cell. -/
theorem evaluate_recompute {id q : CellId} {c : Cell} (found : s.cells.get? q = some c)
    (unread : ¬ s.Reads q id) :
    c.formula.evaluate (s.recompute id).cells.valueOf = c.formula.evaluate s.cells.valueOf := by
  apply Formula.evaluate_congr
  intro p read
  apply valueOf_recompute
  rintro rfl
  exact unread (reads_iff.mpr ⟨c, found, read⟩)

theorem current_recompute_self {id : CellId} (unread : ¬ s.Reads id id) :
    (s.recompute id).Current id := by
  intro d found
  rw [get?_recompute] at found
  obtain ⟨c, before, rfl⟩ := Option.map_eq_some_iff.mp found
  simp only [if_true]
  exact (evaluate_recompute before unread).symm

theorem Current.recompute {id q : CellId} (current : s.Current q) (other : q ≠ id)
    (unread : ¬ s.Reads q id) : (s.recompute id).Current q := by
  intro d found
  rw [get?_recompute] at found
  obtain ⟨c, before, rfl⟩ := Option.map_eq_some_iff.mp found
  simp only [if_neg other]
  rw [evaluate_recompute before unread]
  exact current c before

theorem revalued_foldl_recompute (order : List CellId) (s : Sheet) :
    Revalued s (order.foldl recompute s) := by
  induction order generalizing s with
  | nil => exact .refl s
  | cons id rest ih => exact (revalued_recompute s id).trans (ih _)

/-- If all that is out of date is in the list, and all that reads a cell stands behind it. -/
theorem current_foldl_recompute {order : List CellId} (wired : s.Wired) (acyclic : s.Acyclic)
    (ordered : Graph.Ordered s.dependents order) (outside : ∀ c, c ∉ order → s.Current c)
    (c : CellId) : (order.foldl recompute s).Current c := by
  induction order generalizing s with
  | nil => exact outside c List.not_mem_nil
  | cons id rest ih =>
    have step := revalued_recompute s id
    have wired' := wired.revalued step
    obtain ⟨front, behind⟩ := ordered
    refine ih wired' (acyclic.alike step.formulas) (behind.mono fun a _ b edge => ?_) fun q missing => ?_
    · rw [wired'.mem_dependents, reads_alike step.formulas] at edge
      exact wired.mem_dependents.mpr edge
    · have unread : ¬ s.Reads q id := by
        intro reads
        exact missing (front q (wired.mem_dependents.mpr reads))
      by_cases same : q = id
      · subst same
        exact current_recompute_self unread
      · exact (outside q (by simp [same, missing])).recompute same unread

theorem refresh_sheet (order : List CellId) (s : Sheet) :
    (s.refresh order).1 = order.foldl recompute s := by
  induction order generalizing s with
  | nil => rfl
  | cons id rest ih => exact ih (s.recompute id)

theorem refreshChanged_sheet (order : List CellId) (s : Sheet) :
    (s.refreshChanged order).1 = order.foldl recompute s := by
  induction order generalizing s with
  | nil => rfl
  | cons id rest ih => exact ih (s.recompute id)

theorem recalculate_of_dependencyOrder {order : List CellId}
    (walked : s.dependencyOrder s.cells.ids = .ok order) :
    s.recalculate = ⟨order.foldl recompute s, (s.refreshChanged order).2, .ok ()⟩ := by
  unfold recalculate
  rw [walked, ← refreshChanged_sheet]

/-- Also where it finds a cycle, recalculation does no more than recompute cells. -/
theorem exists_recalculate_eq (s : Sheet) :
    ∃ order : List CellId, s.recalculate.sheet = order.foldl recompute s := by
  cases walked : s.dependencyOrder s.cells.ids with
  | error e =>
    unfold recalculate
    rw [walked]
    exact ⟨[], rfl⟩
  | ok order =>
    rw [recalculate_of_dependencyOrder walked]
    exact ⟨order, rfl⟩

/-- Recalculation finds no cycle, and leaves every cell current. -/
theorem recalculate_ok (wired : s.Wired) (acyclic : s.Acyclic) :
    s.recalculate.result = .ok () ∧ Revalued s s.recalculate.sheet ∧
      ∀ c, s.recalculate.sheet.Current c := by
  obtain ⟨order, walked⟩ := wired.exists_dependencyOrder acyclic s.cells.ids
  obtain ⟨ordered, all⟩ := ordered_of_dependencyOrder walked
  rw [recalculate_of_dependencyOrder walked]
  refine ⟨rfl, revalued_foldl_recompute order s, ?_⟩
  refine current_foldl_recompute wired acyclic ordered fun c missing d found => ?_
  exact absurd (all (CellStore.mem_ids.mpr (by simp [found]))) missing

/-! The input of a cell. -/

section input
variable {a : Address} {raw : String} {id : CellId} {formula : Formula} {order : List CellId}

theorem valueOf_storeInput {q : CellId} (other : q ≠ id) :
    (s.storeInput id raw formula).cells.valueOf q = s.cells.valueOf q := by
  unfold CellStore.valueOf
  rw [storeInput_eq_adopt, get?_adopt, Option.map_map]
  apply Option.map_congr
  intro c _
  simp only [Function.comp_apply, if_neg other, Cell.value_relink]

theorem evaluate_storeInput {f : Formula} (unread : id ∉ f.precedents) :
    f.evaluate (s.storeInput id raw formula).cells.valueOf = f.evaluate s.cells.valueOf := by
  apply Formula.evaluate_congr
  intro p read
  apply valueOf_storeInput
  rintro rfl
  exact unread read

/-- The cell itself has its new value, and those that do not read it keep theirs. -/
theorem current_storeInput (current : ∀ c, s.Current c) (unread : id ∉ formula.precedents)
    {q : CellId} (other : q ≠ id → ¬ s.Reads q id) : (s.storeInput id raw formula).Current q := by
  intro d found
  rw [storeInput_eq_adopt, get?_adopt] at found
  obtain ⟨c, before, rfl⟩ := Option.map_eq_some_iff.mp found
  by_cases same : q = id
  · simp only [if_pos same, Cell.store]
    rw [evaluate_storeInput unread, valueOf_rewire s id formula.nodup_precedents]
  · simp only [if_neg same, Cell.value_relink, Cell.formula_relink]
    have away : id ∉ c.formula.precedents := fun read => other same (reads_iff.mpr ⟨c, before, read⟩)
    rw [evaluate_storeInput away]
    exact current q c before

/-- Then all that depends on the cell follows. -/
theorem current_setInput (wired : s.Wired) (laid : s.Laid) (current : ∀ c, s.Current c)
    (prepared : s.prepareInput a raw = .ok (id, formula, order))
    (wired' : (s.storeInput id raw formula).Wired) (acyclic' : (s.storeInput id raw formula).Acyclic)
    (c : CellId) : (order.tail.foldl recompute (s.storeInput id raw formula)).Current c := by
  obtain ⟨found, -, walked, free⟩ := prepareInput_eq_ok prepared
  have live := laid.live_of_idAt? found
  obtain ⟨rest, rfl⟩ := Graph.topologicalOrder_single (topologicalOrder_of_dependencyOrder walked)
  obtain ⟨⟨front, behind⟩, -⟩ := ordered_of_dependencyOrder walked
  refine current_foldl_recompute wired' acyclic' (behind.mono ?_) ?_ c
  · intro p member q edge
    rw [wired'.mem_dependents, storeInput_eq_adopt, reads_adopt live] at edge
    split at edge
    · exact absurd (List.mem_cons_of_mem _ member) (free p edge)
    · exact wired.mem_dependents.mpr edge
  · intro q missing
    refine current_storeInput current (fun read => free id read List.mem_cons_self) fun _ reads => ?_
    exact missing (front q (wired.mem_dependents.mpr reads))

end input

end Sheet
end Spreadsheet
