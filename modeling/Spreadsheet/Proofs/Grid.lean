import Mathlib
import Spreadsheet.Sheet.Error

/-! Cells and their addresses: each live cell has one, and a rectangle lists the cells whose
addresses lie between its corners. -/
namespace Spreadsheet

namespace Address

/-- In the rectangle of two opposite corners. -/
structure Between (a b c : Address) : Prop where
  row : min a.row b.row ≤ c.row ∧ c.row ≤ max a.row b.row
  column : min a.column b.column ≤ c.column ∧ c.column ≤ max a.column b.column

/-- The corner with the least coordinates. -/
def low (a b : Address) : Address := ⟨min a.column b.column, min a.row b.row⟩

/-- The corner with the greatest coordinates. -/
def high (a b : Address) : Address := ⟨max a.column b.column, max a.row b.row⟩

/-- No coordinate is less. -/
instance : LE Address := ⟨fun a b => a.column ≤ b.column ∧ a.row ≤ b.row⟩

theorem le_iff {a b : Address} : a ≤ b ↔ a.column ≤ b.column ∧ a.row ≤ b.row := Iff.rfl

theorem le_trans {a b c : Address} (h : a ≤ b) (h' : b ≤ c) : a ≤ c :=
  ⟨Nat.le_trans h.1 h'.1, Nat.le_trans h.2 h'.2⟩

theorem le_antisymm {a b : Address} (h : a ≤ b) (h' : b ≤ a) : a = b := by
  obtain ⟨column, row⟩ := a
  obtain ⟨column', row'⟩ := b
  exact congrArg₂ mk (Nat.le_antisymm h.1 h'.1) (Nat.le_antisymm h.2 h'.2)

theorem low_le_high (a b : Address) : a.low b ≤ a.high b := ⟨min_le_max, min_le_max⟩

theorem low_eq_left {a b : Address} (h : a ≤ b) : a.low b = a := by
  rw [low, min_eq_left h.1, min_eq_left h.2]

theorem high_eq_right {a b : Address} (h : a ≤ b) : a.high b = b := by
  rw [high, max_eq_right h.1, max_eq_right h.2]

end Address

namespace Sheet

/-- Columns are of one height, and the live cells are those that have an address. -/
structure Laid (s : Sheet) : Prop where
  height : ∀ column ∈ s.columns, column.length = s.height
  unique : ∀ a b id, s.idAt? a = some id → s.idAt? b = some id → a = b
  live : ∀ id, (∃ a, s.idAt? a = some id) ↔ (s.cells.get? id).isSome

variable {s t : Sheet}

theorem idAt?_eq_some {a : Address} {id : CellId} : s.idAt? a = some id ↔
    ∃ column, s.columns[a.column]? = some column ∧ column[a.row]? = some id := by
  unfold idAt?
  rw [Option.bind_eq_some_iff]

theorem idAt_eq_ok {a : Address} {id : CellId} : s.idAt a = .ok id ↔ s.idAt? a = some id := by
  unfold idAt
  split <;> simp_all

theorem cellAt_eq_ok {a : Address} {c : Cell} :
    s.cellAt a = .ok c ↔ ∃ id, s.idAt? a = some id ∧ s.cells.get? id = some c := by
  rw [← Option.bind_eq_some_iff, ← cellAt?]
  unfold cellAt
  split
  · rename_i found
    rw [found, Except.ok.injEq, Option.some.injEq]
  · rename_i missing
    simp [missing]

theorem Laid.isSome_idAt? (laid : s.Laid) {a : Address} :
    (s.idAt? a).isSome ↔ a.column < s.width ∧ a.row < s.height := by
  unfold idAt? width
  cases found : s.columns[a.column]? with
  | none =>
    have outside := List.getElem?_eq_none_iff.mp found
    simp only [Option.bind_none, Option.isSome_none, Bool.false_eq_true, false_iff]
    omega
  | some column =>
    have inside := (List.getElem?_eq_some_iff.mp found).1
    have height := laid.height column (List.mem_of_getElem? found)
    simp only [Option.bind_some, isSome_getElem?, height, inside, true_and]

theorem Laid.live_of_idAt? (laid : s.Laid) {a : Address} {id : CellId} (h : s.idAt? a = some id) :
    (s.cells.get? id).isSome :=
  (laid.live id).mp ⟨a, h⟩

theorem Laid.exists_get? (laid : s.Laid) {a : Address} {id : CellId} (h : s.idAt? a = some id) :
    ∃ c, s.cells.get? id = some c :=
  Option.isSome_iff_exists.mp (laid.live_of_idAt? h)

/-! Where cells are depends on the columns only. -/

theorem idAt?_congr (columns : t.columns = s.columns) (a : Address) : t.idAt? a = s.idAt? a := by
  unfold idAt?
  rw [columns]

theorem addressOf_congr (columns : t.columns = s.columns) : t.addressOf = s.addressOf := by
  funext id
  unfold addressOf
  rw [columns]

theorem Laid.congr (laid : s.Laid) (columns : t.columns = s.columns) (height : t.height = s.height)
    (live : ∀ id, (t.cells.get? id).isSome = (s.cells.get? id).isSome) : t.Laid := by
  have cells := idAt?_congr columns
  refine ⟨?_, fun a b id => ?_, fun id => ?_⟩
  · rw [columns, height]
    exact laid.height
  · rw [cells, cells]
    exact laid.unique a b id
  · simp only [cells, live]
    exact laid.live id

theorem idAt?_of_addressOf {a : Address} {id : CellId} (h : s.addressOf id = some a) :
    s.idAt? a = some id := by
  obtain ⟨⟨column, c⟩, member, found⟩ := List.exists_of_findSome?_eq_some h
  obtain ⟨r, position, rfl⟩ := Option.map_eq_some_iff.mp found
  rw [idAt?_eq_some]
  refine ⟨column, List.mk_mem_zipIdx_iff_getElem?.mp member, ?_⟩
  obtain ⟨inside, here, -⟩ := List.idxOf?_eq_some_iff.mp position
  exact List.getElem?_eq_some_iff.mpr ⟨inside, here⟩

theorem Laid.addressOf_eq_some (laid : s.Laid) {a : Address} {id : CellId} :
    s.addressOf id = some a ↔ s.idAt? a = some id := by
  constructor
  · exact idAt?_of_addressOf
  · intro h
    cases known : s.addressOf id with
    | some b => rw [laid.unique a b id h (idAt?_of_addressOf known)]
    | none =>
      obtain ⟨column, found, place⟩ := idAt?_eq_some.mp h
      have missing := List.findSome?_eq_none_iff.mp known (column, a.column)
        (List.mk_mem_zipIdx_iff_getElem?.mpr found)
      simp only [Option.map_eq_none_iff, List.idxOf?_eq_none_iff] at missing
      exact absurd (List.mem_of_getElem? place) missing

theorem Laid.exists_addressOf (laid : s.Laid) {id : CellId} (live : (s.cells.get? id).isSome) :
    ∃ a, s.addressOf id = some a ∧ s.idAt? a = some id := by
  obtain ⟨a, h⟩ := (laid.live id).mpr live
  exact ⟨a, laid.addressOf_eq_some.mpr h, h⟩

theorem Laid.position_eq (laid : s.Laid) {id : CellId} (live : (s.cells.get? id).isSome) :
    s.idAt? (s.position id) = some id := by
  obtain ⟨a, known, h⟩ := laid.exists_addressOf live
  unfold position
  rw [known]
  exact h

theorem Laid.position_of_idAt? (laid : s.Laid) {a : Address} {id : CellId} (h : s.idAt? a = some id) :
    s.position id = a := by
  unfold position
  rw [laid.addressOf_eq_some.mpr h]
  rfl

theorem mem_rectangle {a b : Address} {id : CellId} :
    id ∈ s.rectangle a b ↔ ∃ c, a.Between b c ∧ s.idAt? c = some id := by
  simp only [rectangle, List.mem_flatMap, List.mem_filterMap, List.mem_range'_1]
  constructor
  · intro ⟨row, rows, column, columns, h⟩
    exact ⟨⟨column, row⟩, ⟨by simp only; omega, by simp only; omega⟩, h⟩
  · intro ⟨c, ⟨row, column⟩, h⟩
    exact ⟨c.row, by omega, c.column, by omega, h⟩

theorem rectangle_congr {a b : Address} (same : ∀ c, a.Between b c → s.idAt? c = t.idAt? c) :
    s.rectangle a b = t.rectangle a b := by
  unfold rectangle
  apply List.flatMap_congr
  intro row rows
  apply List.filterMap_congr
  intro column columns
  rw [List.mem_range'_1] at rows columns
  exact same ⟨column, row⟩ ⟨by simp only; omega, by simp only; omega⟩

theorem rectangle_low_high (a b : Address) : s.rectangle (a.low b) (a.high b) = s.rectangle a b := by
  simp only [rectangle, Address.low, Address.high, min_eq_left min_le_max, max_eq_right min_le_max]

theorem head?_rectangle {a b : Address} {id : CellId} (h : s.idAt? (a.low b) = some id) :
    (s.rectangle a b).head? = some id := by
  unfold rectangle
  rw [List.range'_succ, List.range'_succ, List.flatMap_cons, List.filterMap_cons]
  rw [Address.low] at h
  rw [h]
  rfl

theorem getLast?_rectangle {a b : Address} {id : CellId} (h : s.idAt? (a.high b) = some id) :
    (s.rectangle a b).getLast? = some id := by
  have top (m n : Nat) : min m n + (max m n - min m n) = max m n := by omega
  rw [Address.high] at h
  unfold rectangle
  rw [List.range'_concat, List.range'_concat, List.flatMap_append, List.flatMap_singleton,
    List.filterMap_append]
  simp only [Nat.one_mul, top]
  simp [h]

theorem Laid.isSome_between (laid : s.Laid) {a b c : Address} (first : (s.idAt? a).isSome)
    (last : (s.idAt? b).isSome) (between : a.Between b c) : (s.idAt? c).isSome := by
  rw [laid.isSome_idAt?] at *
  have := between.row
  have := between.column
  omega

theorem between_first (a b : Address) : a.Between b a := ⟨by omega, by omega⟩

theorem between_last (a b : Address) : a.Between b b := ⟨by omega, by omega⟩

theorem between_low (a b : Address) : a.Between b (a.low b) :=
  ⟨by simp only [Address.low]; omega, by simp only [Address.low]; omega⟩

theorem between_high (a b : Address) : a.Between b (a.high b) :=
  ⟨by simp only [Address.high]; omega, by simp only [Address.high]; omega⟩

theorem between_low_high {a b c : Address} : (a.low b).Between (a.high b) c ↔ a.Between b c := by
  constructor
  · intro ⟨row, column⟩
    simp only [Address.low, Address.high, min_eq_left min_le_max, max_eq_right min_le_max] at row column
    exact ⟨row, column⟩
  · intro ⟨row, column⟩
    constructor
    · simpa only [Address.low, Address.high, min_eq_left min_le_max, max_eq_right min_le_max] using row
    · simpa only [Address.low, Address.high, min_eq_left min_le_max, max_eq_right min_le_max] using column

/-- The list of a rectangle starts in one corner and ends in the opposite one. -/
theorem Laid.corners_of_rectangle (laid : s.Laid) {a b : Address} (onFirst : (s.idAt? a).isSome)
    (onLast : (s.idAt? b).isSome) {first : CellId} {rest : List CellId}
    (cells : s.rectangle a b = first :: rest) : s.idAt? (a.low b) = some first ∧
      s.idAt? (a.high b) = some (rest.getLast?.getD first) := by
  obtain ⟨low, atLow⟩ := Option.isSome_iff_exists.mp
    (laid.isSome_between onFirst onLast (between_low a b))
  obtain ⟨high, atHigh⟩ := Option.isSome_iff_exists.mp
    (laid.isSome_between onFirst onLast (between_high a b))
  have front := head?_rectangle atLow
  have back := getLast?_rectangle atHigh
  rw [cells] at front back
  cases front
  rw [List.getLast?_cons, Option.some.injEq] at back
  exact ⟨atLow, by rw [back, atHigh]⟩

/-- So where its first cell and its last are, they are in that order. -/
theorem Laid.le_of_rectangle (laid : s.Laid) {a b : Address} {first : CellId} {rest : List CellId}
    (atFirst : s.idAt? a = some first) (atLast : s.idAt? b = some (rest.getLast?.getD first))
    (cells : s.rectangle a b = first :: rest) : a ≤ b := by
  have corners := laid.corners_of_rectangle (Option.isSome_of_eq_some atFirst)
    (Option.isSome_of_eq_some atLast) cells
  calc a
    _ = a.low b := laid.unique _ _ first atFirst corners.1
    _ ≤ a.high b := Address.low_le_high a b
    _ = b := laid.unique _ _ _ corners.2 atLast

/-- Between two corners in that order the list starts in the one and ends in the other. -/
theorem exists_rectangle_eq_cons {a b : Address} {first last : CellId} (ordered : a ≤ b)
    (atFirst : s.idAt? a = some first) (atLast : s.idAt? b = some last) :
    ∃ rest, s.rectangle a b = first :: rest ∧ rest.getLast?.getD first = last := by
  have front := head?_rectangle ((Address.low_eq_left ordered).symm ▸ atFirst)
  have back := getLast?_rectangle ((Address.high_eq_right ordered).symm ▸ atLast)
  obtain ⟨rest, cells⟩ := List.head?_eq_some_iff.mp front
  rw [cells, List.getLast?_cons, Option.some.injEq] at back
  exact ⟨rest, cells, back⟩

/-- A rectangle on the sheet is that of the addresses of its first and its last cell. -/
theorem Laid.exists_corners (laid : s.Laid) {a b : Address} (onFirst : (s.idAt? a).isSome)
    (onLast : (s.idAt? b).isSome) : ∃ first rest low high, s.rectangle a b = first :: rest ∧
      s.idAt? low = some first ∧ s.idAt? high = some (rest.getLast?.getD first) ∧
      s.rectangle low high = first :: rest := by
  obtain ⟨low, atLow⟩ := Option.isSome_iff_exists.mp
    (laid.isSome_between onFirst onLast (between_low a b))
  have front := head?_rectangle atLow
  cases cells : s.rectangle a b with
  | nil =>
    rw [cells] at front
    cases front
  | cons first rest =>
    obtain ⟨atFirst, atLast⟩ := laid.corners_of_rectangle onFirst onLast cells
    exact ⟨first, rest, a.low b, a.high b, rfl, atFirst, atLast, (rectangle_low_high a b).trans cells⟩

theorem resolver_range {a b : Address} {cells : List CellId} :
    s.resolver.range a b = some cells ↔
      ((s.idAt? a).isSome ∧ (s.idAt? b).isSome) ∧ s.rectangle a b = cells := by
  simp only [resolver]
  split
  · rename_i on
    simp [on]
  · rename_i off
    simp [off]

theorem rectangle_eq_of_columns (columns : t.columns = s.columns) : t.rectangle = s.rectangle := by
  funext a b
  exact rectangle_congr fun c _ => idAt?_congr columns c

theorem resolver_congr (columns : t.columns = s.columns) : t.resolver = s.resolver := by
  have cells : t.idAt? = s.idAt? := funext (idAt?_congr columns)
  unfold resolver
  rw [cells, rectangle_eq_of_columns columns]

end Sheet
end Spreadsheet
