import Spreadsheet.Proofs.Currency
import Spreadsheet.Proofs.Reshaping

/-! Bringing formulas in line with a new shape never fails: what was rendered reads back, and
ranges that grow take in cells that read nothing. -/
namespace Spreadsheet.Sheet
open Spreadsheet.Formula

variable {s t : Sheet}

/-! The formulas whose text changes. -/

/-- The cells whose input is to be rewritten, with the new input. -/
def stale (s : Sheet) (before : CellId → Option Address) : List (CellId × String) :=
  s.cells.ids.filterMap fun id => (s.cells.get? id).bind fun cell =>
    let text := cell.formula.render s.addressOf
    if cell.isFormula ∧ cell.formula.render before ≠ text then some (id, "=" ++ text) else none

theorem mem_stale {before : CellId → Option Address} {id : CellId} {raw : String} :
    (id, raw) ∈ s.stale before ↔ ∃ c, s.cells.get? id = some c ∧ c.isFormula ∧
      c.formula.render before ≠ c.formula.render s.addressOf ∧
      raw = "=" ++ c.formula.render s.addressOf := by
  simp only [stale, List.mem_filterMap, Option.bind_eq_some_iff, CellStore.mem_ids]
  constructor
  · rintro ⟨id', -, c, found, h⟩
    split at h
    · rename_i changed
      cases h
      exact ⟨c, found, changed.1, changed.2, rfl⟩
    · cases h
  · rintro ⟨c, found, formula, changed, rfl⟩
    exact ⟨id, by simp [found], c, found, if_pos ⟨formula, changed⟩⟩

/-- What a stale input is replaced by. -/
def restatement (s : Sheet) : CellId × String → Except SheetError (CellId × String × Formula)
  | (id, raw) => do return (id, raw, ← (Formula.ofInput s.resolver raw).mapError .parse)

theorem restatements_eq (before : CellId → Option Address) :
    s.restatements before = (s.stale before).mapM s.restatement := rfl

theorem restatement_eq_ok {id : CellId} {raw : String} {e : CellId × String × Formula} :
    s.restatement (id, raw) = .ok e ↔
      ∃ g, Formula.ofInput s.resolver raw = .ok g ∧ e = (id, raw, g) := by
  unfold restatement
  rw [bind_eq_ok]
  simp only [mapError_eq_ok]
  constructor
  · rintro ⟨g, parsed, h⟩
    cases h
    exact ⟨g, parsed, rfl⟩
  · rintro ⟨g, parsed, rfl⟩
    exact ⟨g, parsed, rfl⟩

/-! Replacing them, one after the other. -/

/-- Each cell with its new formula. -/
def restate (s : Sheet) (new : List (CellId × String × Formula)) : Sheet :=
  new.foldl (fun s (id, raw, formula) => s.replaceFormula id raw formula) s

theorem restate_cons (id : CellId) (raw : String) (formula : Formula)
    (new : List (CellId × String × Formula)) (s : Sheet) :
    s.restate ((id, raw, formula) :: new) = (s.adopt id raw formula Cell.value).restate new := rfl

theorem sameFrame_restate (new : List (CellId × String × Formula)) (s : Sheet) :
    SameFrame s (s.restate new) := by
  induction new generalizing s with
  | nil => exact .refl s
  | cons e new ih => exact (sameFrame_adopt s e.1 e.2.1 e.2.2 Cell.value).trans (ih _)

theorem isSome_get?_restate (new : List (CellId × String × Formula)) (id : CellId) :
    ((s.restate new).cells.get? id).isSome = (s.cells.get? id).isSome := by
  induction new generalizing s with
  | nil => rfl
  | cons e new ih =>
    obtain ⟨i, raw, formula⟩ := e
    rw [restate_cons, ih, isSome_get?_adopt]

theorem Wired.restate (wired : s.Wired) {new : List (CellId × String × Formula)}
    (live : ∀ e ∈ new, (s.cells.get? e.1).isSome ∧
      ∀ p ∈ e.2.2.precedents, (s.cells.get? p).isSome) : (s.restate new).Wired := by
  induction new generalizing s with
  | nil => exact wired
  | cons e new ih =>
    obtain ⟨id, raw, formula⟩ := e
    obtain ⟨here, reads⟩ := live _ List.mem_cons_self
    rw [restate_cons]
    apply ih (wired.adopt here reads)
    intro e member
    simp only [isSome_get?_adopt]
    exact live e (List.mem_cons_of_mem _ member)

/-- A cell has one of the new inputs with its formula, or no new one was meant for it. -/
theorem entry_restate {new : List (CellId × String × Formula)} {id : CellId} {c : Cell}
    (found : (s.restate new).cells.get? id = some c) :
    ((∀ raw g, (id, raw, g) ∉ new) ∧
        ∃ d, s.cells.get? id = some d ∧ c.raw = d.raw ∧ c.formula = d.formula) ∨
      (id, c.raw, c.formula) ∈ new := by
  induction new generalizing s with
  | nil => exact .inl ⟨fun _ _ => List.not_mem_nil, c, found, rfl, rfl⟩
  | cons e new ih =>
    obtain ⟨i, raw, formula⟩ := e
    rw [restate_cons] at found
    rcases ih found with ⟨missing, d, before, sameRaw, same⟩ | member
    · rw [get?_adopt] at before
      obtain ⟨d, old, rfl⟩ := Option.map_eq_some_iff.mp before
      by_cases here : id = i
      · subst here
        simp only [if_true, Cell.store] at sameRaw same
        rw [sameRaw, same]
        exact .inr List.mem_cons_self
      · simp only [if_neg here, Cell.raw_relink, Cell.formula_relink] at sameRaw same
        refine .inl ⟨fun raw' g member => ?_, d, old, sameRaw, same⟩
        rcases List.mem_cons.mp member with first | member
        · cases first
          exact here rfl
        · exact missing raw' g member
    · exact .inr (List.mem_cons_of_mem _ member)

theorem formula_restate {new : List (CellId × String × Formula)} {id : CellId} {c : Cell}
    (found : (s.restate new).cells.get? id = some c) :
    ((∀ raw g, (id, raw, g) ∉ new) ∧ ∃ d, s.cells.get? id = some d ∧ c.formula = d.formula) ∨
      ∃ raw, (id, raw, c.formula) ∈ new := by
  rcases entry_restate found with ⟨missing, d, before, -, same⟩ | member
  · exact .inl ⟨missing, d, before, same⟩
  · exact .inr ⟨c.raw, member⟩

theorem reflow_eq_recalculate {before : CellId → Option Address}
    {new : List (CellId × String × Formula)} (ok : s.restatements before = .ok new) :
    s.reflow before = (s.restate new).recalculate := by
  unfold reflow
  rw [ok]
  rfl

/-- Nothing happens if a formula cannot be restated. -/
theorem reflow_cases (s : Sheet) (before : CellId → Option Address) :
    (s.reflow before).sheet = s ∨
      ∃ new, (s.reflow before).sheet = (s.restate new).recalculate.sheet := by
  cases ok : s.restatements before with
  | error e =>
    unfold reflow
    rw [ok]
    exact .inl rfl
  | ok new => exact .inr ⟨new, congrArg Outcome.sheet (reflow_eq_recalculate ok)⟩

/-! A sheet whose shape has changed, and whose formulas are still those of the old shape. -/

structure Changed (s t : Sheet) : Prop where
  laid : s.Laid
  laid' : t.Laid
  wired' : t.Wired
  acyclic' : t.Acyclic
  small : s.Representable
  small' : t.Representable
  fitting : s.Fitting
  reshaped : Reshaped s t
  formulas : ∀ id c, t.cells.get? id = some c →
    (∃ d, s.cells.get? id = some d ∧ c.formula = d.formula) ∨
      s.cells.get? id = none ∧ c.formula = .empty

namespace Changed

variable {id : CellId} {c : Cell}

theorem fresh (h : Changed s t) (found : t.cells.get? id = some c) (new : s.cells.get? id = none) :
    c.formula = .empty := by
  rcases h.formulas id c found with ⟨d, before, -⟩ | ⟨-, empty⟩
  · rw [new] at before
    cases before
  · exact empty

theorem fitsOn (h : Changed s t) (found : t.cells.get? id = some c) : c.formula.FitsOn s := by
  rcases h.formulas id c found with ⟨d, before, same⟩ | ⟨-, empty⟩
  · rw [same]
    exact h.fitting id d before
  · rw [empty]
    exact .inl ⟨"", rfl⟩

/-- A formula of the changed sheet is a tree that can be written under both layouts. -/
theorem tree (h : Changed s t) (found : t.cells.get? id = some c) (formula : c.isFormula) :
    c.formula.IsTreeOf s.resolver ∧ c.formula.nesting ≤ Parser.nestingLimit ∧
      c.formula.Writable s.addressOf ∧ c.formula.Writable t.addressOf := by
  rcases h.fitsOn found with ⟨text, isText⟩ | ⟨tree, nested⟩
  · rw [Cell.isFormula, isText] at formula
    cases formula
  · refine ⟨tree, nested, ?_, ?_⟩
    · refine writable_of_leaves h.laid h.small tree.leaves fun p read => ?_
      exact live_of_fitsOn h.laid (.inr ⟨tree, nested⟩) p (mem_precedents.mpr read)
    · refine writable_of_leaves h.laid' h.small' tree.leaves fun p read => ?_
      exact h.wired'.read_live id p (reads_iff.mpr ⟨c, found, mem_precedents.mpr read⟩)

/-- The new text of a formula reads back. -/
theorem exists_restated (h : Changed s t) (found : t.cells.get? id = some c)
    (formula : c.isFormula) : ∃ g, Restated t.resolver t.addressOf c.formula g ∧
      Formula.ofInput t.resolver ("=" ++ c.formula.render t.addressOf) = .ok g := by
  obtain ⟨tree, nested, -, writable⟩ := h.tree found formula
  obtain ⟨g, restated⟩ := Sheet.exists_restated h.laid' writable
  exact ⟨g, restated, restated.ofInput nested tree.depth_le⟩

theorem exists_restatements (h : Changed s t) : ∃ new, t.restatements s.addressOf = .ok new := by
  rw [restatements_eq]
  apply exists_mapM_eq_ok
  rintro ⟨id, raw⟩ member
  obtain ⟨c, found, formula, -, rfl⟩ := mem_stale.mp member
  obtain ⟨g, -, parsed⟩ := h.exists_restated found formula
  exact ⟨_, restatement_eq_ok.mpr ⟨g, parsed, rfl⟩⟩

variable {new : List (CellId × String × Formula)}

/-- What is stored anew is a formula whose text has changed. -/
theorem stale_of_mem (ok : t.restatements s.addressOf = .ok new) {raw : String} {g : Formula}
    (member : (id, raw, g) ∈ new) : ∃ c, t.cells.get? id = some c ∧ c.isFormula ∧
      c.formula.render s.addressOf ≠ c.formula.render t.addressOf ∧
      raw = "=" ++ c.formula.render t.addressOf ∧ Formula.ofInput t.resolver raw = .ok g := by
  rw [restatements_eq] at ok
  obtain ⟨⟨id', raw'⟩, isStale, result⟩ := (exists_of_mapM_eq_ok ok).2 _ member
  obtain ⟨g', parsed, same⟩ := restatement_eq_ok.mp result
  cases same
  obtain ⟨c, found, formula, changed, text⟩ := mem_stale.mp isStale
  exact ⟨c, found, formula, changed, text, parsed⟩

/-- It is what that formula restates to. -/
theorem restated_of_mem (h : Changed s t) (ok : t.restatements s.addressOf = .ok new)
    {raw : String} {g : Formula} (member : (id, raw, g) ∈ new) :
    ∃ c, t.cells.get? id = some c ∧ c.isFormula ∧ Restated t.resolver t.addressOf c.formula g ∧
      Formula.ofInput t.resolver raw = .ok g := by
  obtain ⟨c, found, formula, -, rfl, parsed⟩ := stale_of_mem ok member
  obtain ⟨g', restated, parsed'⟩ := h.exists_restated found formula
  rw [parsed] at parsed'
  cases parsed'
  exact ⟨c, found, formula, restated, parsed⟩

/-- A formula that is not stored anew has kept its text. -/
theorem render_eq_of_not_mem (ok : t.restatements s.addressOf = .ok new)
    (found : t.cells.get? id = some c) (formula : c.isFormula) (missing : ∀ raw g, (id, raw, g) ∉ new) :
    c.formula.render s.addressOf = c.formula.render t.addressOf := by
  rw [restatements_eq] at ok
  by_contra changed
  obtain ⟨e, member, result⟩ := (exists_of_mapM_eq_ok ok).1 _
    (mem_stale.mpr ⟨c, found, formula, changed, rfl⟩)
  obtain ⟨g, -, rfl⟩ := restatement_eq_ok.mp result
  exact missing _ g member

/-- So the cells at the ends of its ranges and references have stayed where they were. -/
theorem addressOf_eq_of_not_mem (h : Changed s t) (ok : t.restatements s.addressOf = .ok new)
    (found : t.cells.get? id = some c) (missing : ∀ raw g, (id, raw, g) ∉ new) :
    ∀ cell ∈ c.formula.ends, s.addressOf cell = t.addressOf cell := by
  intro cell member
  have formula : c.isFormula := by
    refine hasReferences_iff.mpr fun none => ?_
    have := c.formula.ends_subset_cells member
    simp [none] at this
  obtain ⟨tree, nested, writable, writable'⟩ := h.tree found formula
  have text := congrArg String.toList (render_eq_of_not_mem ok found formula missing)
  simp only [render, String.toList_ofList] at text
  exact addresses_eq_of_toChars_eq writable writable' nested tree.depth_le text member

theorem wired_restate (h : Changed s t) (ok : t.restatements s.addressOf = .ok new) :
    (t.restate new).Wired := by
  refine h.wired'.restate ?_
  rintro ⟨id, raw, g⟩ member
  obtain ⟨c, found, -, -, parsed⟩ := h.restated_of_mem ok member
  exact ⟨by simp [found], live_of_fitsOn h.laid' (ofInput_fits parsed)⟩

theorem laid_restate (h : Changed s t) : (t.restate new).Laid := by
  have frame := sameFrame_restate new t
  exact h.laid'.congr frame.columns frame.height (isSome_get?_restate new)

/-- What a new formula reads beyond the old one are cells that read nothing. -/
theorem acyclic_restate (h : Changed s t) (ok : t.restatements s.addressOf = .ok new) :
    (t.restate new).Acyclic := by
  refine acyclic_of_dead_ends h.acyclic' fun id p reads => ?_
  obtain ⟨d, found, read⟩ := reads_iff.mp reads
  rcases formula_restate found with ⟨-, c, before, same⟩ | ⟨raw, member⟩
  · rw [same] at read
    exact .inl (reads_iff.mpr ⟨c, before, read⟩)
  · obtain ⟨c, before, formula, restated, -⟩ := h.restated_of_mem ok member
    obtain ⟨tree, -⟩ := h.tree before formula
    rw [mem_precedents] at read
    rcases reads_of_restated h.laid h.reshaped tree.leaves restated p read with old | new
    · exact .inl (reads_iff.mpr ⟨c, before, mem_precedents.mpr old⟩)
    · refine .inr fun q onward => ?_
      obtain ⟨e, at_p, read⟩ := reads_iff.mp onward
      rcases formula_restate at_p with ⟨-, f, before, same⟩ | ⟨raw, member⟩
      · rw [same, h.fresh before new] at read
        cases read
      · obtain ⟨f, before, formula, -⟩ := h.restated_of_mem ok member
        rw [Cell.isFormula, h.fresh before new] at formula
        cases formula

theorem fitting_restate (h : Changed s t) (ok : t.restatements s.addressOf = .ok new) :
    (t.restate new).Fitting := by
  intro id d found
  unfold FitsOn
  rw [resolver_congr (sameFrame_restate new t).columns]
  rcases formula_restate found with ⟨missing, c, before, same⟩ | ⟨raw, member⟩
  · rw [same]
    exact fitsOn_of_same_addresses h.laid h.laid' h.reshaped (h.fitsOn before)
      (h.addressOf_eq_of_not_mem ok before missing)
  · obtain ⟨-, -, -, -, parsed⟩ := h.restated_of_mem ok member
    exact ofInput_fits parsed

/-- The whole reflow. -/
theorem reflow (h : Changed s t) : ∃ u, SameFrame t u ∧ u.Laid ∧ u.Wired ∧ u.Acyclic ∧ u.Fitting ∧
    t.reflow s.addressOf = u.recalculate := by
  obtain ⟨new, ok⟩ := h.exists_restatements
  refine ⟨t.restate new, sameFrame_restate new t, h.laid_restate, h.wired_restate ok,
    h.acyclic_restate ok, h.fitting_restate ok, reflow_eq_recalculate ok⟩

end Changed

end Spreadsheet.Sheet
