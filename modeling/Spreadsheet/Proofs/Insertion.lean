import Spreadsheet.Proofs.Following

/-! A line that is inserted moves cells and grows ranges, and changes nothing else. -/
namespace Spreadsheet.Sheet
open Spreadsheet.Formula

variable {s t : Sheet} {axis : Axis} {i : Nat}

/-- A new line `i` of cells that were never there before. Earlier cells and their listeners are
what they were, but their formulas follow the cells that they read; a range takes in the new
cells between its ends, and without such a range below it a cell keeps its value. -/
structure Inserted (s t : Sheet) (axis : Axis) (i : Nat) : Prop where
  count : t.lineCount axis = s.lineCount axis + 1
  length : t.lineLength axis = s.lineLength axis
  places : ∀ a : Address, t.idAt? (a.opened axis i) = s.idAt? a
  fresh : ∀ a : Address, a.along axis = i → a.across axis < s.lineLength axis →
    ∃ id d, t.idAt? a = some id ∧ s.cells.slots.size ≤ id.index ∧ t.cells.get? id = some d ∧
      d.raw = "" ∧ d.formula = .empty ∧ d.value = .empty ∧ d.listeners = []
  listeners : t.listeners = s.listeners
  cells : ∀ id c, s.cells.get? id = some c → ∃ d, t.cells.get? id = some d ∧ Followed s t c d
  ranges : ∀ id c op first rest, s.cells.get? id = some c →
    .range op first rest ∈ c.formula.leaves → ∀ p, p ∈ t.span first rest ↔ p ∈ first :: rest ∨
      ∃ a : Address, a.along axis = i ∧
        (t.position first).Between (t.position (rest.getLast?.getD first)) a ∧ t.idAt? a = some p
  values : ∀ id, (s.cells.get? id).isSome →
    (∀ q c op first rest, Relation.ReflTransGen s.Reads id q → s.cells.get? q = some c →
      .range op first rest ∈ c.formula.leaves → t.span first rest = first :: rest) →
    t.cells.valueOf id = s.cells.valueOf id

theorem get?_insertCells_of_live {id : CellId} {c : Cell} (found : s.cells.get? id = some c) :
    (s.insertCells axis i).cells.get? id = some c := by
  rw [cells_insertCells, CellStore.get?_allocate_of_live found]

/-- The new line before any formula is restated. -/
theorem exists_fresh (laid : s.Laid) (inside : i ≤ s.lineCount axis) {a : Address}
    (on : a.along axis = i) (within : a.across axis < s.lineLength axis) :
    ∃ id, (s.insertCells axis i).idAt? a = some id ∧ s.cells.slots.size ≤ id.index ∧
      (s.insertCells axis i).cells.get? id = some .empty := by
  have new := CellStore.getElem?_nextIds (s := s.cells) |>.mpr ⟨within, rfl⟩
  refine ⟨_, (idAt?_insertCells_line laid inside on).trans new, Nat.le_add_right _ _, ?_⟩
  rw [cells_insertCells]
  exact (CellStore.get?_of_nextIds new).2

theorem Sound.inserted (sound : s.Sound) (small : s.Representable)
    (small' : (s.insertCells axis i).Representable) (inside : i ≤ s.lineCount axis) :
    Inserted s (s.insertLine axis i).sheet axis i := by
  have changed := sound.changed_insertCells small small' inside
  have opens : Opens s (s.insertCells axis i) axis i := opens_insertCells
  have sound' := (sound.insertLine small small' inside).2
  rw [insertLine_of_le inside] at sound' ⊢
  have frame := sameFrame_reflow (s.insertCells axis i) s.addressOf
  have counts := lineCount_insertCells inside
  have counts' := lineCount_congr frame axis
  have followed {id : CellId} {c : Cell} (found : (s.insertCells axis i).cells.get? id = some c) :=
    changed.followed (.inl opens) found
  constructor
  case count => rw [counts'.1, counts.1]
  case length => rw [counts'.2, counts.2]
  case places =>
    intro a
    rw [idAt?_congr frame.columns, opens]
  case fresh =>
    intro a on within
    obtain ⟨id, here, new, empty⟩ := exists_fresh sound.laid inside on within
    obtain ⟨d, found, follows⟩ := followed empty
    have formula : d.formula = .empty := follows.formula
    refine ⟨id, d, (idAt?_congr frame.columns a).trans here, new, found,
      follows.kept fun p read => ?_, formula, ?_, follows.listeners⟩
    · cases read
    · rw [sound'.current id d found, formula]
      rfl
  case listeners => rw [frame.listeners, listeners_insertCells.1]
  case cells => exact fun id c found => followed (get?_insertCells_of_live found)
  case ranges =>
    intro id c op first rest found member p
    obtain ⟨low, high, atLow, atHigh, rectangle, atLow', atHigh'⟩ :=
      changed.exists_span (get?_insertCells_of_live found) member
    simp only [span_congr frame.columns, position_congr frame.columns, idAt?_congr frame.columns]
    unfold span
    rw [← opens.opened_eq changed.laid' atLow atLow', ← opens.opened_eq changed.laid' atHigh atHigh',
      opens.mem_rectangle, rectangle]
  case values =>
    intro p live full
    refine sound.valueOf_kept sound'.current (Relation.ReflTransGen s.Reads p ·)
      (fun c q path reads => path.tail reads) (fun q c path found => ?_) .refl live
    obtain ⟨d, after, follows⟩ := followed (get?_insertCells_of_live found)
    refine ⟨d, after, ?_⟩
    rw [follows.formula, respan_eq_self]
    exact fun op first rest => full q c op first rest path found

/-- Lines can be inserted before any line and behind the last. -/
theorem insertLine_inserted (reachable : s.Reachable) (inside : i ≤ s.lineCount axis)
    {o : Outcome Unit} (returns : s.Returns (.insertLine axis i) o) :
    o.result = .ok () ∧ Inserted s o.sheet axis i := by
  obtain ⟨rfl, small⟩ := returns
  have small' := small.of_insertLine inside
  have sound := reachable.sound
  exact ⟨(sound.insertLine reachable.representable small' inside).1,
    sound.inserted reachable.representable small' inside⟩

/-- The range of `B3` grows once more. -/
theorem insertLine_inserted_sample :
    (sample.apply (.insertLine .row 1)).result = .ok () ∧
      Inserted sample (sample.apply (.insertLine .row 1)).sheet .row 1 ∧
      (sample.apply (.insertLine .row 1)).sheet.span ⟨0⟩ [⟨4⟩, ⟨1⟩] = [⟨0⟩, ⟨6⟩, ⟨4⟩, ⟨1⟩] := by
  have inside : 1 ≤ sample.lineCount .row := by decide +kernel
  obtain ⟨ok, inserted⟩ := insertLine_inserted reachable_sample inside ⟨rfl, by decide +kernel⟩
  exact ⟨ok, inserted, by decide +kernel⟩

end Spreadsheet.Sheet
