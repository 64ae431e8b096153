import Spreadsheet.Proofs.Registration

/-! Formulas follow the cells that they read: what a change of shape makes of each of them. -/
namespace Spreadsheet

/-- The cells between the first cell of a range and its last, row by row, where these now are. -/
def Sheet.span (s : Sheet) (first : CellId) (rest : List CellId) : List CellId :=
  s.rectangle (s.position first) (s.position (rest.getLast?.getD first))

theorem Sheet.position_congr {s t : Sheet} (columns : t.columns = s.columns) :
    t.position = s.position := by
  funext id
  unfold Sheet.position
  rw [addressOf_congr columns]

theorem Sheet.span_congr {s t : Sheet} (columns : t.columns = s.columns) : t.span = s.span := by
  funext first rest
  unfold Sheet.span
  rw [rectangle_eq_of_columns columns, position_congr columns]

namespace Formula

/-- The same tree, with each range taking in all that lies between its ends. -/
def respan (s : Sheet) : Formula → Formula
  | range op first rest => (range? op (s.span first rest)).getD (range op first rest)
  | negate operand => negate (operand.respan s)
  | binary op left right => binary op (left.respan s) (right.respan s)
  | leaf => leaf

variable {s t : Sheet} {f g : Formula}

theorem respan_congr (columns : t.columns = s.columns) (f : Formula) : f.respan t = f.respan s := by
  induction f with
  | number | text | reference => rfl
  | range op first rest => rw [respan, respan, Sheet.span_congr columns]
  | negate operand ih => rw [respan, respan, ih]
  | binary op left right ihl ihr => rw [respan, respan, ihl, ihr]

theorem respan_eq_self
    (same : ∀ op first rest, .range op first rest ∈ f.leaves → s.span first rest = first :: rest) :
    f.respan s = f := by
  induction f with
  | number | text | reference => rfl
  | range op first rest => rw [respan, same op first rest (List.mem_singleton_self _)]; rfl
  | negate operand ih => rw [respan, ih same]
  | binary op left right ihl ihr =>
    rw [respan, ihl fun op first rest member => same op first rest (List.mem_append_left _ member),
      ihr fun op first rest member => same op first rest (List.mem_append_right _ member)]

theorem Restated.eq_respan (h : Restated s.resolver s.addressOf f g) : g = f.respan s := by
  induction h with
  | number => rfl
  | reference known _ resolved =>
    cases (Sheet.idAt?_of_addressOf known).symm.trans resolved
    rfl
  | range known known' _ _ resolved =>
    have cells := (Sheet.resolver_range.mp resolved).2
    unfold respan Sheet.span Sheet.position
    rw [known, known', Option.getD_some, Option.getD_some, cells]
    rfl
  | negate _ ih => rw [respan, ih]
  | binary _ _ ihl ihr => rw [respan, ihl, ihr]

/-- Where all ranges are full, nothing is taken in. -/
theorem respan_of_fitsOn (laid : s.Laid) (small : s.Representable) (fits : f.FitsOn s) :
    f.respan s = f := by
  rcases fits with ⟨text, rfl⟩ | ⟨tree, -⟩
  · rfl
  · exact (laid.restated_self small tree.leaves).eq_respan.symm

theorem toChars_congr {addressOf addressOf' : CellId → Option Address}
    (same : ∀ p ∈ f.ends, addressOf p = addressOf' p) : f.toChars addressOf = f.toChars addressOf' := by
  induction f with
  | number | text => rfl
  | reference cell => simp only [toChars, addressChars, same cell (List.mem_singleton_self _)]
  | range op first rest =>
    have front := same first (by simp [ends])
    have back := same (rest.getLast?.getD first) (by simp [ends])
    simp only [toChars, addressChars, front, back]
  | negate operand ih => simp only [toChars, ih same]
  | binary op left right ihl ihr =>
    simp only [toChars, ihl fun p member => same p (List.mem_append_left _ member),
      ihr fun p member => same p (List.mem_append_right _ member)]

theorem precedence_respan : (f.respan s).precedence = f.precedence := by
  cases f with
  | number | text | reference | negate => rfl
  | range op first rest =>
    rw [respan]
    cases s.span first rest <;> rfl
  | binary op left right => cases op <;> rfl

/-- The text shows of a range its ends only, so it stays as long as the list has these ends. -/
theorem toChars_respan {addressOf : CellId → Option Address}
    (same : ∀ op first rest, .range op first rest ∈ f.leaves → ∃ rest',
      s.span first rest = first :: rest' ∧ rest'.getLast?.getD first = rest.getLast?.getD first) :
    (f.respan s).toChars addressOf = f.toChars addressOf := by
  induction f with
  | number | text | reference => rfl
  | range op first rest =>
    obtain ⟨rest', cells, last⟩ := same op first rest (List.mem_singleton_self _)
    rw [respan, cells]
    simp only [range?, Option.getD_some, toChars, last]
  | negate operand ih => simp only [respan, toChars, precedence_respan, ih same]
  | binary op left right ihl ihr =>
    have left := ihl fun op first rest member => same op first rest (List.mem_append_left _ member)
    have right := ihr fun op first rest member => same op first rest (List.mem_append_right _ member)
    simp only [respan, toChars, precedence_respan, left, right]

theorem render_congr {addressOf addressOf' : CellId → Option Address}
    (same : ∀ p ∈ f.ends, addressOf p = addressOf' p) : f.render addressOf = f.render addressOf' :=
  congrArg String.ofList (toChars_congr same)

end Formula

namespace Sheet
open Spreadsheet.Formula

variable {s t : Sheet} {axis : Axis} {i : Nat}

/-! Which cells move. -/

/-- Both sheets are the same but for one line, which only the larger one has. -/
def Shifted (s t : Sheet) (axis : Axis) (i : Nat) : Prop := Opens s t axis i ∨ Opens t s axis i

section shifted
variable {a b : Address} {p : CellId}

theorem Shifted.addressOf_eq_iff (shifted : Shifted s t axis i) (laid : s.Laid) (laid' : t.Laid)
    (before : s.idAt? a = some p) (live : (t.cells.get? p).isSome) :
    t.addressOf p = s.addressOf p ↔ a.along axis < i := by
  obtain ⟨b, known, after⟩ := laid'.exists_addressOf live
  rw [known, laid.addressOf_eq_some.mpr before, Option.some.injEq]
  rcases shifted with opens | opens
  · rw [← opens.opened_eq laid' before after, Address.opened_eq_self]
  · rw [← opens.opened_eq laid after before, eq_comm, Address.opened_eq_self, Address.along_opened]
    unfold stepOver
    split <;> omega

/-- No cell overtakes another. -/
theorem Shifted.le_iff (shifted : Shifted s t axis i) (laid : s.Laid) (laid' : t.Laid)
    {a' b' : Address} {q : CellId} (first : s.idAt? a = some p) (first' : t.idAt? a' = some p)
    (last : s.idAt? b = some q) (last' : t.idAt? b' = some q) : a' ≤ b' ↔ a ≤ b := by
  rcases shifted with opens | opens
  · rw [← opens.opened_eq laid' first first', ← opens.opened_eq laid' last last',
      Address.opened_le_opened]
  · rw [← opens.opened_eq laid first' first, ← opens.opened_eq laid last' last,
      Address.opened_le_opened]

end shifted

namespace Changed

variable {id : CellId} {c : Cell} {new : List (CellId × String × Formula)}

theorem live_of_mem_cells (h : Changed s t) (found : t.cells.get? id = some c) {p : CellId}
    (read : p ∈ c.formula.cells) : (t.cells.get? p).isSome :=
  h.wired'.read_live id p (reads_iff.mpr ⟨c, found, mem_precedents.mpr read⟩)

theorem isLeafOf (h : Changed s t) (found : t.cells.get? id = some c) {leaf : Formula}
    (member : leaf ∈ c.formula.leaves) {p : CellId} (read : p ∈ leaf.cells) :
    leaf.IsLeafOf s.resolver := by
  rcases h.fitsOn found with ⟨text, isText⟩ | ⟨tree, -⟩
  · rw [isText] at member
    rw [List.mem_singleton.mp member] at read
    cases read
  · exact tree.leaves leaf member

/-- Where the ends of a range are now. -/
theorem exists_span (h : Changed s t) (found : t.cells.get? id = some c) {op : Aggregate}
    {first : CellId} {rest : List CellId} (member : .range op first rest ∈ c.formula.leaves) :
    ∃ low high, s.idAt? low = some first ∧ s.idAt? high = some (rest.getLast?.getD first) ∧
      s.rectangle low high = first :: rest ∧ t.idAt? (t.position first) = some first ∧
      t.idAt? (t.position (rest.getLast?.getD first)) = some (rest.getLast?.getD first) := by
  have fits := h.isLeafOf found member (p := first) List.mem_cons_self
  obtain ⟨low, high, atLow, atHigh, rectangle⟩ := h.laid.exists_ends fits
  have alive {p : CellId} (isEnd : p ∈ (Formula.range op first rest).ends) :
      (t.cells.get? p).isSome :=
    h.live_of_mem_cells found (c.formula.ends_subset_cells (ends_subset_of_mem_leaves member isEnd))
  exact ⟨low, high, atLow, atHigh, rectangle, h.laid'.position_eq (alive (by simp [ends])),
    h.laid'.position_eq (alive (by simp [ends]))⟩

/-- A range still starts and ends with the cells that its list did. -/
theorem span_eq_cons (h : Changed s t) (shifted : Shifted s t axis i)
    (found : t.cells.get? id = some c) {op : Aggregate} {first : CellId} {rest : List CellId}
    (member : .range op first rest ∈ c.formula.leaves) : ∃ rest',
      t.span first rest = first :: rest' ∧ rest'.getLast?.getD first = rest.getLast?.getD first := by
  obtain ⟨low, high, atLow, atHigh, rectangle, atLow', atHigh'⟩ := h.exists_span found member
  have ordered := h.laid.le_of_rectangle atLow atHigh rectangle
  rw [← shifted.le_iff h.laid h.laid' atLow atLow' atHigh atHigh'] at ordered
  exact exists_rectangle_eq_cons ordered atLow' atHigh'

/-- What lies between two ends that have stayed has stayed. -/
theorem stays_iff (h : Changed s t) (shifted : Shifted s t axis i) (found : t.cells.get? id = some c) :
    (∀ p ∈ c.formula.precedents, t.addressOf p = s.addressOf p) ↔
      ∀ p ∈ c.formula.ends, t.addressOf p = s.addressOf p := by
  constructor
  · exact fun stay p member => stay p (mem_precedents.mpr (c.formula.ends_subset_cells member))
  · intro stay p read
    rw [mem_precedents] at read
    obtain ⟨leaf, member, inside⟩ := mem_cells_iff.mp read
    have fits := h.isLeafOf found member inside
    have before {q : CellId} {a : Address} (isEnd : q ∈ leaf.ends) (here : s.idAt? a = some q) :
        a.along axis < i := by
      have isEnd := ends_subset_of_mem_leaves member isEnd
      have alive := h.live_of_mem_cells found (c.formula.ends_subset_cells isEnd)
      exact (shifted.addressOf_eq_iff h.laid h.laid' here alive).mp (stay q isEnd)
    cases leaf with
    | number | text => cases inside
    | negate | binary => exact fits.elim
    | reference cell => exact stay p (ends_subset_of_mem_leaves member inside)
    | range op first rest =>
      obtain ⟨low, high, atLow, atHigh, rectangle⟩ := h.laid.exists_ends fits
      rw [Formula.cells, ← rectangle] at inside
      obtain ⟨a, between, here⟩ := mem_rectangle.mp inside
      rw [shifted.addressOf_eq_iff h.laid h.laid' here (h.live_of_mem_cells found read)]
      exact between.along_lt (before (by simp [ends]) atLow) (before (by simp [ends]) atHigh)

/-- The text of a formula changes exactly where it reads a cell that has moved. -/
theorem render_eq_iff (h : Changed s t) (shifted : Shifted s t axis i)
    (found : t.cells.get? id = some c) (formula : c.isFormula) :
    c.formula.render s.addressOf = c.formula.render t.addressOf ↔
      ∀ p ∈ c.formula.precedents, t.addressOf p = s.addressOf p := by
  rw [h.stays_iff shifted found]
  constructor
  · intro same p member
    obtain ⟨tree, nested, writable, writable'⟩ := h.tree found formula
    have text := congrArg String.toList same
    simp only [render, String.toList_ofList] at text
    exact (addresses_eq_of_toChars_eq writable writable' nested tree.depth_le text member).symm
  · exact fun stay => render_congr fun p member => (stay p member).symm

end Changed

/-- What becomes of a cell whose formula follows the cells that it reads. -/
structure Followed (s t : Sheet) (c d : Cell) : Prop where
  formula : d.formula = c.formula.respan t
  rewritten : (∃ p ∈ c.formula.precedents, t.addressOf p ≠ s.addressOf p) →
    d.raw = "=" ++ d.formula.render t.addressOf
  kept : (∀ p ∈ c.formula.precedents, t.addressOf p = s.addressOf p) → d.raw = c.raw
  listeners : d.listeners = c.listeners

theorem Followed.congr {u : Sheet} {c d : Cell} (h : Followed s t c d) (columns : u.columns = t.columns) :
    Followed s u c d := by
  have addresses := addressOf_congr columns
  refine ⟨h.formula.trans (respan_congr columns _).symm, ?_, ?_, h.listeners⟩
  · rw [addresses]
    exact h.rewritten
  · rw [addresses]
    exact h.kept

/-- A cell whose text has changed is restated, and one whose text has not is in line as it is. -/
theorem Changed.followed (h : Changed s t) (shifted : Shifted s t axis i) {id : CellId} {c : Cell}
    (found : t.cells.get? id = some c) : ∃ d, (t.reflow s.addressOf).sheet.cells.get? id = some d ∧
      Followed s (t.reflow s.addressOf).sheet c d := by
  have columns := (sameFrame_reflow t s.addressOf).columns
  have watched := alike_reflow t s.addressOf
  obtain ⟨d, after⟩ := Option.isSome_iff_exists.mp
    ((watched.isSome_get? id).trans (Option.isSome_of_eq_some found))
  have listeners : d.listeners = c.listeners := by
    obtain ⟨c', found', same⟩ := watched.exists_get? after
    rw [found] at found'
    cases found'
    exact same
  obtain ⟨new, ok⟩ := h.exists_restatements
  rw [reflow_eq_recalculate ok] at columns after ⊢
  have entries : Alike Cell.entry (t.restate new) _ := alike_recalculate Cell.entry_recompute _
  obtain ⟨e, between, entry⟩ := entries.exists_get? after
  obtain ⟨raw, formula⟩ := Cell.entry_eq.mp entry
  refine ⟨d, after, Followed.congr ?_ columns⟩
  rcases entry_restate between with ⟨missing, c', found', sameRaw, same⟩ | member
  · rw [found] at found'
    cases found'
    have ends := h.addressOf_eq_of_not_mem ok found missing
    have stay := (h.stays_iff shifted found).mpr fun p member => (ends p member).symm
    have fits := fitsOn_of_same_addresses h.laid h.laid' h.reshaped (h.fitsOn found) ends
    have full : d.formula = c.formula.respan t := by
      rw [formula, same, respan_of_fitsOn h.laid' h.small' fits]
    exact ⟨full, fun ⟨p, read, moved⟩ => absurd (stay p read) moved, fun _ => raw.trans sameRaw,
      listeners⟩
  · obtain ⟨c', found', isFormula, restated, -⟩ := h.restated_of_mem ok member
    obtain ⟨c'', found'', -, changed, text, -⟩ := stale_of_mem ok member
    rw [found] at found' found''
    cases found'
    cases found''
    have full : d.formula = c.formula.respan t := formula.trans restated.eq_respan
    have shown : d.formula.render t.addressOf = c.formula.render t.addressOf := by
      rw [full]
      exact congrArg String.ofList (toChars_respan fun _ _ _ => h.span_eq_cons shifted found)
    refine ⟨full, fun _ => ?_, fun stay => ?_, listeners⟩
    · rw [raw, text, shown]
    · exact absurd ((h.render_eq_iff shifted found isFormula).mpr stay) changed

end Sheet
end Spreadsheet
