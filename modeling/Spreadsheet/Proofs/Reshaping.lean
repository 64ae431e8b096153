import Spreadsheet.Proofs.LineCells
import Spreadsheet.Proofs.Renaming
import Spreadsheet.Proofs.Restating

/-! Formulas that fit their sheet, and what a change of its shape does to their ranges. -/
namespace Spreadsheet

/-- A text, or a tree within the limits whose references and ranges are those of the sheet. -/
def Formula.FitsOn (s : Sheet) (f : Formula) : Prop :=
  (∃ text, f = .text text) ∨ f.IsTreeOf s.resolver ∧ f.nesting ≤ Parser.nestingLimit

namespace Sheet

variable {s t : Sheet} {axis : Axis} {i : Nat}

def Fitting (s : Sheet) : Prop := ∀ id c, s.cells.get? id = some c → c.formula.FitsOn s

/-- Sizes are machine words. -/
structure Representable (s : Sheet) : Prop where
  width : s.width < indexLimit
  height : s.height < indexLimit

theorem Laid.isWritable (laid : s.Laid) (small : s.Representable) {a : Address}
    (on : (s.idAt? a).isSome) : a.IsWritable := by
  obtain ⟨column, row⟩ := laid.isSome_idAt?.mp on
  have := small.width
  have := small.height
  exact ⟨by omega, by omega⟩

/-- What a change of shape does to a rectangle between two cells: while both corners stay where
they are it stays the same, and else it takes in new cells only. -/
structure Reshaped (s t : Sheet) : Prop where
  fixed : ∀ a b first last, s.idAt? a = some first → s.idAt? b = some last →
    t.idAt? a = some first → t.idAt? b = some last → t.rectangle a b = s.rectangle a b
  moved : ∀ a b a' b' first last, s.idAt? a = some first → s.idAt? b = some last →
    t.idAt? a' = some first → t.idAt? b' = some last →
    ∀ p ∈ t.rectangle a' b', p ∈ s.rectangle a b ∨ s.cells.get? p = none

theorem reshaped_insertCells (laid : s.Laid) (inside : i ≤ s.lineCount axis) :
    Reshaped s (s.insertCells axis i) := by
  have laid' := laid.insertCells inside
  have opens : Opens s (s.insertCells axis i) axis i := opens_insertCells
  have place {a b : Address} {id : CellId} (before : s.idAt? a = some id)
      (after : (s.insertCells axis i).idAt? b = some id) : a.opened axis i = b :=
    opens.opened_eq laid' before after
  constructor
  case fixed =>
    intro a b first last ha hb ha' hb'
    exact opens.rectangle_eq (Address.opened_eq_self.mp (place ha ha'))
      (Address.opened_eq_self.mp (place hb hb'))
  case moved =>
    intro a b a' b' first last ha hb ha' hb' p member
    rw [← place ha ha', ← place hb hb'] at member
    rcases opens.mem_rectangle.mp member with old | ⟨c, on, -, found⟩
    · exact .inl old
    · rw [idAt?_insertCells_line laid inside on] at found
      exact .inr (CellStore.get?_of_nextIds found).1

theorem reshaped_deleteCells (laid : s.Laid) : Reshaped s (s.deleteCells axis i) := by
  have opens : Opens (s.deleteCells axis i) s axis i := opens_deleteCells
  have place {a b : Address} {id : CellId} (before : s.idAt? a = some id)
      (after : (s.deleteCells axis i).idAt? b = some id) : b.opened axis i = a :=
    opens.opened_eq laid after before
  constructor
  case fixed =>
    intro a b first last ha hb ha' hb'
    exact (opens.rectangle_eq (Address.opened_eq_self.mp (place ha ha'))
      (Address.opened_eq_self.mp (place hb hb'))).symm
  case moved =>
    intro a b a' b' first last ha hb ha' hb' p member
    rw [← place ha ha', ← place hb hb']
    exact .inl (opens.mem_rectangle.mpr (.inl member))

/-! A tree that fits the sheet before the change. -/

section tree
variable {f : Formula}

/-- A range that fits lists the rectangle between its first cell and its last. -/
theorem Laid.exists_ends (laid : s.Laid) {op : Aggregate} {first : CellId} {rest : List CellId}
    (leaf : (Formula.range op first rest).IsLeafOf s.resolver) : ∃ low high,
      s.idAt? low = some first ∧ s.idAt? high = some (rest.getLast?.getD first) ∧
      s.rectangle low high = first :: rest := by
  obtain ⟨a, b, resolved⟩ := leaf
  obtain ⟨⟨onFirst, onLast⟩, cells⟩ := resolver_range.mp resolved
  obtain ⟨first', rest', low, high, cells', atFirst, atLast, same⟩ :=
    laid.exists_corners onFirst onLast
  rw [cells] at cells'
  cases cells'
  exact ⟨low, high, atFirst, atLast, same⟩

/-- Wherever its cells have addresses, it can be written. -/
theorem writable_of_leaves (laid : t.Laid) (small : t.Representable)
    (leaves : ∀ leaf ∈ f.leaves, leaf.IsLeafOf s.resolver)
    (live : ∀ p ∈ f.cells, (t.cells.get? p).isSome) : f.Writable t.addressOf := by
  refine ⟨fun leaf member => ⟨_, leaves leaf member⟩, fun cell member => ?_⟩
  obtain ⟨a, known, on⟩ := laid.exists_addressOf (live cell (f.ends_subset_cells member))
  exact ⟨a, known, laid.isWritable small (by simp [on])⟩

/-- A text that names places of the sheet only reads back on it. -/
theorem exists_restated_of_onSheet (laid : t.Laid) {addressOf : CellId → Option Address}
    (writable : f.Writable addressOf)
    (onSheet : ∀ cell ∈ f.ends, ∀ a, addressOf cell = some a → (t.idAt? a).isSome) :
    ∃ g, Formula.Restated t.resolver addressOf f g := by
  refine writable.exists_restated onSheet fun a b onA onB => ?_
  obtain ⟨first, rest, _, _, cells, -, -, -⟩ := laid.exists_corners onA onB
  exact ⟨first, rest, resolver_range.mpr ⟨⟨onA, onB⟩, cells⟩⟩

theorem exists_restated (laid : t.Laid) (writable : f.Writable t.addressOf) :
    ∃ g, Formula.Restated t.resolver t.addressOf f g :=
  exists_restated_of_onSheet laid writable fun _ _ _ known =>
    Option.isSome_of_eq_some (idAt?_of_addressOf known)

theorem live_of_isLeafOf (laid : s.Laid) (leaf : f.IsLeafOf s.resolver) :
    ∀ p ∈ f.cells, (s.cells.get? p).isSome := by
  intro p member
  cases f with
  | number => cases member
  | reference cell =>
    obtain ⟨a, found⟩ := leaf
    rw [List.mem_singleton.mp member]
    exact laid.live_of_idAt? found
  | range op first rest =>
    obtain ⟨a, b, resolved⟩ := leaf
    obtain ⟨-, same⟩ := resolver_range.mp resolved
    rw [Formula.cells, ← same] at member
    obtain ⟨c, -, found⟩ := mem_rectangle.mp member
    exact laid.live_of_idAt? found
  | text | negate | binary => exact leaf.elim

/-- A formula that fits reads cells of the sheet. -/
theorem live_of_fitsOn (laid : s.Laid) (fits : f.FitsOn s) :
    ∀ p ∈ f.precedents, (s.cells.get? p).isSome := by
  intro p read
  rw [Formula.mem_precedents] at read
  rcases fits with ⟨text, rfl⟩ | ⟨tree, -⟩
  · cases read
  · obtain ⟨leaf, member, read⟩ := Formula.mem_cells_iff.mp read
    exact live_of_isLeafOf laid (tree.leaves leaf member) p read

/-- A restated formula reads what it read before, and new cells. -/
theorem reads_of_restated (laid : s.Laid) (reshaped : Reshaped s t)
    (leaves : ∀ leaf ∈ f.leaves, leaf.IsLeafOf s.resolver) {g : Formula}
    (restated : Formula.Restated t.resolver t.addressOf f g) :
    ∀ p ∈ g.cells, p ∈ f.cells ∨ s.cells.get? p = none := by
  refine restated.forall_cells (P := fun p => p ∈ f.cells ∨ s.cells.get? p = none) ?_
  intro leaf member leaf' restated p read
  have fits := leaves leaf member
  have old {p : CellId} (read : p ∈ leaf.cells) : p ∈ f.cells :=
    Formula.mem_cells_iff.mpr ⟨leaf, member, read⟩
  cases restated with
  | number => cases read
  | reference known writable resolved =>
    have target := (idAt?_of_addressOf known).symm.trans resolved
    rw [Option.some.injEq] at target
    rw [← target] at read
    exact .inl (old read)
  | range known known' writable writable' resolved =>
    obtain ⟨low, high, atLow, atHigh, rectangle⟩ := laid.exists_ends fits
    obtain ⟨-, rectangle'⟩ := resolver_range.mp resolved
    rw [Formula.cells, ← rectangle'] at read
    rcases reshaped.moved _ _ _ _ _ _ atLow atHigh (idAt?_of_addressOf known)
      (idAt?_of_addressOf known') p read with before | new
    · rw [rectangle] at before
      exact .inl (old before)
    · exact .inr new
  | negate => exact fits.elim
  | binary => exact fits.elim

/-- A formula whose references and corners have stayed is read alike on both sheets. The corners
in the text may be any two opposite ones. -/
theorem carried_of_same_addresses (laid : s.Laid) (laid' : t.Laid) (reshaped : Reshaped s t)
    (same : ∀ cell ∈ f.ends, s.addressOf cell = t.addressOf cell) :
    ∀ leaf ∈ f.leaves, leaf.Carried s.resolver t.resolver id := by
  intro leaf member
  have stays {cell : CellId} {a : Address} (read : cell ∈ leaf.ends)
      (before : s.idAt? a = some cell) : t.idAt? a = some cell := by
    have here := same cell (Formula.ends_subset_of_mem_leaves member read)
    rw [laid.addressOf_eq_some.mpr before] at here
    exact idAt?_of_addressOf here.symm
  cases leaf with
  | number | text | negate | binary => trivial
  | reference cell =>
    intro a found
    exact stays (by simp [Formula.ends]) found
  | range op first rest =>
    intro a b resolved
    obtain ⟨⟨onA, onB⟩, cells⟩ := resolver_range.mp resolved
    obtain ⟨atLow, atHigh⟩ := laid.corners_of_rectangle onA onB cells
    have atLow' := stays (by simp [Formula.ends]) atLow
    have atHigh' := stays (by simp [Formula.ends]) atHigh
    have rectangle := reshaped.fixed _ _ _ _ atLow atHigh atLow' atHigh'
    rw [rectangle_low_high, rectangle_low_high, cells] at rectangle
    have onSheet {c : Address} (between : a.Between b c) : (t.idAt? c).isSome :=
      laid'.isSome_between (by rw [atLow']; rfl) (by rw [atHigh']; rfl) (between_low_high.mpr between)
    rw [List.map_id]
    exact resolver_range.mpr ⟨⟨onSheet (between_first a b), onSheet (between_last a b)⟩, rectangle⟩

/-- So it needs no restating. -/
theorem fitsOn_of_same_addresses (laid : s.Laid) (laid' : t.Laid) (reshaped : Reshaped s t)
    (fits : f.FitsOn s) (same : ∀ cell ∈ f.ends, s.addressOf cell = t.addressOf cell) :
    f.FitsOn t := by
  rcases fits with text | ⟨tree, nested⟩
  · exact .inl text
  · refine .inr ⟨⟨tree.depth_le, fun leaf member => ?_⟩, nested⟩
    have carried := carried_of_same_addresses laid laid' reshaped same leaf member
    have renamed := (tree.leaves leaf member).rename carried
    rwa [Formula.rename_id] at renamed

end tree

end Sheet
end Spreadsheet
