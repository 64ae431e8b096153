import Spreadsheet.Proofs.Grid
import Spreadsheet.Sheet.Shape

/-! Inserting and deleting a line, seen from the addresses: the larger of the two sheets is the
smaller one opened at the line. -/
namespace Spreadsheet

/-- Indices from `i` on make room for a new one. -/
def stepOver (i n : Nat) : Nat := if n < i then n else n + 1

theorem stepOver_ne (i n : Nat) : stepOver i n ≠ i := by
  unfold stepOver
  split <;> omega

/-- Indices behind `i` close up. -/
def stepBack (i n : Nat) : Nat := if n < i then n else n - 1

theorem stepOver_stepBack {i n : Nat} (other : n ≠ i) : stepOver i (stepBack i n) = n := by
  unfold stepBack
  split
  · exact if_pos ‹_›
  · rw [stepOver, if_neg (by omega)]
    omega

theorem stepOver_inj {i m n : Nat} : stepOver i m = stepOver i n ↔ m = n := by
  unfold stepOver
  split <;> split <;> omega

theorem stepOver_between {i m n k : Nat} :
    min (stepOver i m) (stepOver i n) ≤ stepOver i k ∧
      stepOver i k ≤ max (stepOver i m) (stepOver i n) ↔ min m n ≤ k ∧ k ≤ max m n := by
  unfold stepOver
  split <;> split <;> split <;> omega

theorem stepOver_le {i m n : Nat} : stepOver i m ≤ stepOver i n ↔ m ≤ n := by
  unfold stepOver
  split <;> split <;> omega

theorem stepOver_eq_self {i n : Nat} : stepOver i n = n ↔ n < i := by
  unfold stepOver
  split <;> omega

theorem le_stepOver (i n : Nat) : n ≤ stepOver i n := by
  unfold stepOver
  split <;> omega

/-- The line that is further on stands one further once the other is there. -/
theorem stepOver_comm {i k : Nat} (h : i ≤ k) (n : Nat) :
    stepOver (k + 1) (stepOver i n) = stepOver i (stepOver k n) := by
  unfold stepOver
  split_ifs <;> omega

theorem getElem?_insertIdx_stepOver {α : Type} (l : List α) (i n : Nat) (a : α) :
    (l.insertIdx i a)[stepOver i n]? = l[n]? := by
  unfold stepOver
  split
  · rw [List.getElem?_insertIdx_of_lt ‹_›]
  · rw [List.getElem?_insertIdx_of_gt (by omega), Nat.add_sub_cancel]

theorem getElem?_eraseIdx_stepOver {α : Type} (l : List α) (i n : Nat) :
    (l.eraseIdx i)[n]? = l[stepOver i n]? := by
  unfold stepOver
  rw [List.getElem?_eraseIdx]
  split <;> rfl

namespace Address

/-- The coordinate that counts the lines of an axis. -/
def along (axis : Axis) (a : Address) : Nat :=
  match axis with
  | .row => a.row
  | .column => a.column

/-- The place on the line. -/
def across (axis : Axis) (a : Address) : Nat :=
  match axis with
  | .row => a.column
  | .column => a.row

/-- Where the address moves when line `i` is opened. -/
def opened (axis : Axis) (i : Nat) (a : Address) : Address :=
  match axis with
  | .row => ⟨a.column, stepOver i a.row⟩
  | .column => ⟨stepOver i a.column, a.row⟩

/-- Where the address moves when line `i` is taken out. -/
def closed (axis : Axis) (i : Nat) (a : Address) : Address :=
  match axis with
  | .row => ⟨a.column, stepBack i a.row⟩
  | .column => ⟨stepBack i a.column, a.row⟩

variable {axis : Axis} {i : Nat} {a b c : Address}

theorem opened_closed (other : a.along axis ≠ i) : (a.closed axis i).opened axis i = a := by
  cases axis with
  | row => exact congrArg (mk a.column) (stepOver_stepBack other)
  | column => exact congrArg (mk · a.row) (stepOver_stepBack other)

theorem along_opened : (a.opened axis i).along axis = stepOver i (a.along axis) := by
  cases axis <;> rfl

theorem ext_along (along : a.along axis = b.along axis) (across : a.across axis = b.across axis) :
    a = b := by
  cases a
  cases b
  cases axis
  · cases along
    cases across
    rfl
  · cases along
    cases across
    rfl

theorem along_opened_ne : (a.opened axis i).along axis ≠ i := by
  rw [along_opened]
  exact stepOver_ne i _

theorem exists_opened (other : a.along axis ≠ i) : ∃ b : Address, b.opened axis i = a :=
  ⟨_, opened_closed other⟩

theorem opened_inj (h : a.opened axis i = b.opened axis i) : a = b := by
  cases axis with
  | row =>
    simp only [opened, mk.injEq, stepOver_inj] at h
    exact @ext_along .row a b h.2 h.1
  | column =>
    simp only [opened, mk.injEq, stepOver_inj] at h
    exact @ext_along .column a b h.1 h.2

theorem opened_eq_self : a.opened axis i = a ↔ a.along axis < i := by
  cases a
  cases axis <;> simp [opened, along, stepOver_eq_self]

theorem opened_le_opened : a.opened axis i ≤ b.opened axis i ↔ a ≤ b := by
  cases axis <;> simp only [opened, le_iff, stepOver_le]

theorem le_opened (axis : Axis) (i : Nat) (a : Address) : a ≤ a.opened axis i := by
  cases axis with
  | row => exact ⟨Nat.le_refl _, le_stepOver i a.row⟩
  | column => exact ⟨le_stepOver i a.column, Nat.le_refl _⟩

theorem along_le_along (h : a ≤ b) (axis : Axis) : a.along axis ≤ b.along axis := by
  cases axis
  · exact h.2
  · exact h.1

theorem between_opened :
    (a.opened axis i).Between (b.opened axis i) (c.opened axis i) ↔ a.Between b c := by
  cases axis
  · constructor
    · exact fun h => ⟨stepOver_between.mp h.row, h.column⟩
    · exact fun h => ⟨stepOver_between.mpr h.row, h.column⟩
  · constructor
    · exact fun h => ⟨h.row, stepOver_between.mp h.column⟩
    · exact fun h => ⟨h.row, stepOver_between.mpr h.column⟩

theorem Between.along_le (h : a.Between b c) (ordered : a ≤ b) (axis : Axis) :
    a.along axis ≤ c.along axis ∧ c.along axis ≤ b.along axis := by
  obtain ⟨columns, rows⟩ := le_iff.mp ordered
  have := h.row
  have := h.column
  cases axis with
  | row =>
    simp only [along]
    omega
  | column =>
    simp only [along]
    omega

/-- A line between two corners has a place between them. -/
theorem exists_between_along (first : a.along axis ≤ i) (last : i ≤ b.along axis) :
    ∃ c, a.Between b c ∧ c.along axis = i := by
  cases axis with
  | row =>
    simp only [along] at first last
    exact ⟨⟨a.column, i⟩, ⟨by simp only; omega, by simp only; omega⟩, rfl⟩
  | column =>
    simp only [along] at first last
    exact ⟨⟨i, a.row⟩, ⟨by simp only; omega, by simp only; omega⟩, rfl⟩

/-- What lies between two corners before a line lies before it. -/
theorem Between.along_lt (h : a.Between b c) (first : a.along axis < i) (last : b.along axis < i) :
    c.along axis < i := by
  have := h.row
  have := h.column
  cases axis
  · simp only [along] at *
    omega
  · simp only [along] at *
    omega

end Address

namespace Sheet

variable {s : Sheet} {axis : Axis} {i : Nat}

/-- Off line `i` the larger sheet is the smaller one. -/
def Opens (small large : Sheet) (axis : Axis) (i : Nat) : Prop :=
  ∀ a, large.idAt? (a.opened axis i) = small.idAt? a

section opens
variable {small large : Sheet}

theorem Opens.opened_eq (opens : Opens small large axis i) (laid : large.Laid) {a b : Address}
    {id : CellId} (inSmall : small.idAt? a = some id) (inLarge : large.idAt? b = some id) :
    a.opened axis i = b := by
  rw [← opens a] at inSmall
  exact laid.unique _ _ id inSmall inLarge

/-- A rectangle keeps its cells and takes in those of the line that lie in it. -/
theorem Opens.mem_rectangle (opens : Opens small large axis i) {a b : Address} {id : CellId} :
    id ∈ large.rectangle (a.opened axis i) (b.opened axis i) ↔ id ∈ small.rectangle a b ∨
      ∃ c : Address, c.along axis = i ∧ (a.opened axis i).Between (b.opened axis i) c ∧
        large.idAt? c = some id := by
  constructor
  · intro h
    obtain ⟨c, between, found⟩ := Sheet.mem_rectangle.mp h
    by_cases on : c.along axis = i
    · exact .inr ⟨c, on, between, found⟩
    · obtain ⟨c, rfl⟩ := Address.exists_opened on
      rw [opens] at found
      exact .inl (Sheet.mem_rectangle.mpr ⟨c, Address.between_opened.mp between, found⟩)
  · rintro (old | ⟨c, -, between, found⟩)
    · obtain ⟨c, between, found⟩ := Sheet.mem_rectangle.mp old
      rw [← opens] at found
      exact Sheet.mem_rectangle.mpr ⟨_, Address.between_opened.mpr between, found⟩
    · exact Sheet.mem_rectangle.mpr ⟨c, between, found⟩

/-- Before the line the two sheets agree, in the order of the cells too. -/
theorem Opens.rectangle_eq (opens : Opens small large axis i) {a b : Address}
    (first : a.along axis < i) (last : b.along axis < i) :
    large.rectangle a b = small.rectangle a b := by
  apply rectangle_congr
  intro c between
  rw [← opens c, Address.opened_eq_self.mpr (between.along_lt first last)]

/-- A rectangle that the line does not cut keeps its list. -/
theorem Opens.rectangle_opened (opens : Opens small large axis i) {a b : Address}
    (apart : a.along axis < i ∧ b.along axis < i ∨ i ≤ a.along axis ∧ i ≤ b.along axis) :
    large.rectangle (a.opened axis i) (b.opened axis i) = small.rectangle a b := by
  rcases apart with ⟨first, last⟩ | ⟨first, last⟩
  · rw [Address.opened_eq_self.mpr first, Address.opened_eq_self.mpr last]
    exact opens.rectangle_eq first last
  · have step {n : Nat} (behind : i ≤ n) : stepOver i n = 1 + n := by
      rw [stepOver, if_neg (Nat.not_lt.mpr behind), Nat.add_comm]
    cases axis with
    | row =>
      simp only [Address.along] at first last
      simp only [rectangle, Address.opened, step first, step last, Nat.add_min_add_left,
        Nat.add_max_add_left, Nat.add_sub_add_left, ← List.map_add_range', List.flatMap_map]
      apply List.flatMap_congr
      intro row member
      apply List.filterMap_congr
      intro column _
      have behind : i ≤ row := (le_min first last).trans (List.mem_range'_1.mp member).1
      rw [← opens, Address.opened, step behind]
    | column =>
      simp only [Address.along] at first last
      simp only [rectangle, Address.opened, step first, step last, Nat.add_min_add_left,
        Nat.add_max_add_left, Nat.add_sub_add_left, ← List.map_add_range', List.filterMap_map]
      apply List.flatMap_congr
      intro row _
      apply List.filterMap_congr
      intro column member
      have behind : i ≤ column := (le_min first last).trans (List.mem_range'_1.mp member).1
      rw [← opens, Address.opened, step behind]
      rfl

end opens

theorem mem_line {id : CellId} :
    id ∈ s.line axis i ↔ ∃ a : Address, a.along axis = i ∧ s.idAt? a = some id := by
  cases axis with
  | row =>
    simp only [line, List.mem_filterMap]
    constructor
    · rintro ⟨column, member, found⟩
      obtain ⟨c, inside, rfl⟩ := List.getElem_of_mem member
      exact ⟨⟨c, i⟩, rfl, idAt?_eq_some.mpr ⟨_, List.getElem?_eq_getElem inside, found⟩⟩
    · rintro ⟨a, rfl, found⟩
      obtain ⟨column, member, found⟩ := idAt?_eq_some.mp found
      exact ⟨column, List.mem_of_getElem? member, found⟩
  | column =>
    simp only [line]
    constructor
    · intro member
      cases found : s.columns[i]? with
      | none => simp [found] at member
      | some column =>
        rw [found, Option.getD_some] at member
        obtain ⟨r, inside, rfl⟩ := List.getElem_of_mem member
        exact ⟨⟨i, r⟩, rfl, idAt?_eq_some.mpr ⟨column, found, List.getElem?_eq_getElem inside⟩⟩
    · rintro ⟨a, rfl, found⟩
      obtain ⟨column, member, found⟩ := idAt?_eq_some.mp found
      rw [Address.along, member, Option.getD_some]
      exact List.mem_of_getElem? found

end Sheet
end Spreadsheet
