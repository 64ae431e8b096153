import Spreadsheet.Proofs.Reachable

/-! What was typed into a cell stands for the formula that the cell evaluates, whatever has become
of the sheet since; and the text of a formula reads back as that formula. -/
namespace Spreadsheet

/-- What was typed, and the formula it stands for. -/
def Cell.entry (c : Cell) : String × Formula := (c.raw, c.formula)

theorem Cell.entry_eq {c d : Cell} : c.entry = d.entry ↔ c.raw = d.raw ∧ c.formula = d.formula :=
  Prod.ext_iff

theorem Cell.entry_recompute (c : Cell) (values : CellId → Option Value) :
    (c.recompute values).entry = c.entry := rfl

namespace Sheet
open Spreadsheet.Formula

variable {s t : Sheet} {axis : Axis} {i : Nat}

/-! The entries that an edit leaves. -/

theorem alike_foldl_recompute {α : Type} {view : Cell → α}
    (keeps : ∀ c values, view (c.recompute values) = view c) (order : List CellId) (s : Sheet) :
    Alike view s (order.foldl recompute s) := by
  induction order generalizing s with
  | nil => exact .refl s
  | cons id rest ih => exact (alike_recompute keeps s id).trans (ih _)

theorem alike_recalculate {α : Type} {view : Cell → α}
    (keeps : ∀ c values, view (c.recompute values) = view c) (s : Sheet) :
    Alike view s s.recalculate.sheet := by
  obtain ⟨order, same⟩ := s.exists_recalculate_eq
  rw [same]
  exact alike_foldl_recompute keeps order s

section input
variable {a : Address} {raw : String} {id : CellId} {formula : Formula} {order : List CellId}

theorem sameFrame_setInput (s : Sheet) (a : Address) (raw : String) :
    SameFrame s (s.setInput a raw).sheet := by
  rcases s.setInput_cases a raw with same | ⟨id, formula, order, -, same⟩
  · rw [same]
    exact .refl s
  · rw [same]
    exact (sameFrame_adopt s id raw formula _).trans (revalued_foldl_recompute _ _).frame

/-- One cell has the new entry, and all others keep theirs. -/
theorem entry_setInput (prepared : s.prepareInput a raw = .ok (id, formula, order)) (q : CellId) :
    ((s.setInput a raw).sheet.cells.get? q).map Cell.entry =
      (s.cells.get? q).map fun c => if q = id then (raw, formula) else c.entry := by
  rw [(setInput_of_prepared prepared).2, (alike_foldl_recompute Cell.entry_recompute _ _).cells,
    storeInput_eq_adopt,
    get?_adopt, Option.map_map]
  apply Option.map_congr
  intro c _
  by_cases same : q = id
  · simp [same, Cell.entry, Cell.store]
  · simp [same, Cell.entry]

end input

/-! Each input stands for the formula of its cell. -/

def Stated (s : Sheet) : Prop :=
  ∀ id c, s.cells.get? id = some c → Formula.ofInput s.resolver c.raw = .ok c.formula

theorem Stated.alike (stated : s.Stated) (h : Alike Cell.entry s t) : t.Stated := by
  intro id d found
  obtain ⟨c, before, same⟩ := h.exists_get? found
  obtain ⟨raw, formula⟩ := Cell.entry_eq.mp same
  rw [resolver_congr h.columns, raw, formula]
  exact stated id c before

theorem ofInput_empty (r : Resolver) : Formula.ofInput r Cell.empty.raw = .ok Cell.empty.formula := rfl

theorem stated_ofSize (width height : Nat) : (ofSize width height).Stated := by
  intro id c found
  rw [empty_of_get?_ofSize found]
  exact ofInput_empty _

theorem Stated.setInput (stated : s.Stated) (a : Address) (raw : String) :
    (s.setInput a raw).sheet.Stated := by
  rcases s.setInput_cases a raw with same | ⟨id, formula, order, prepared, -⟩
  · rw [same]
    exact stated
  · obtain ⟨-, parsed, -, -⟩ := prepareInput_eq_ok prepared
    intro q d found
    have entry := entry_setInput prepared q
    rw [found, Option.map_some, eq_comm] at entry
    obtain ⟨c, before, entry⟩ := Option.map_eq_some_iff.mp entry
    rw [resolver_congr (sameFrame_setInput s a raw).columns]
    split at entry
    · cases entry
      exact parsed
    · obtain ⟨raw, formula⟩ := Cell.entry_eq.mp entry
      rw [← raw, ← formula]
      exact stated q c before

theorem Stated.subscribe (stated : s.Stated) (a : Address) : (s.subscribe a).sheet.Stated := by
  unfold Sheet.subscribe
  split
  · exact stated
  · rename_i id _
    have same : Alike Cell.entry s (s.modifyCell id (·.attach (.listener ⟨s.nextListener⟩))) :=
      alike_modifyCell fun c => by simp [Cell.entry]
    exact stated.alike ⟨same.columns, same.height, same.cells⟩

theorem Stated.unsubscribe (stated : s.Stated) (l : ListenerId) :
    (s.unsubscribe l).sheet.Stated := by
  unfold Sheet.unsubscribe
  split
  · exact stated
  · rename_i id _
    have same : Alike Cell.entry s (s.modifyCell id (·.detach (.listener l))) :=
      alike_modifyCell fun c => rfl
    exact stated.alike ⟨same.columns, same.height, same.cells⟩

/-! A change of shape. -/

theorem Changed.stated (h : Changed s t) (stated : s.Stated)
    (entries : ∀ id c, t.cells.get? id = some c →
      (∃ d, s.cells.get? id = some d ∧ c.entry = d.entry) ∨ c = .empty) :
    (t.reflow s.addressOf).sheet.Stated := by
  obtain ⟨new, ok⟩ := h.exists_restatements
  rw [reflow_eq_recalculate ok]
  refine Stated.alike (s := t.restate new) ?_ (alike_recalculate Cell.entry_recompute _)
  intro id d found
  rw [resolver_congr (sameFrame_restate new t).columns]
  rcases entry_restate found with ⟨missing, c, before, raw, formula⟩ | member
  · rw [raw, formula]
    rcases entries id c before with ⟨old, atStart, entry⟩ | rfl
    · obtain ⟨sameRaw, sameFormula⟩ := Cell.entry_eq.mp entry
      have parsed := stated id old atStart
      rw [← sameRaw, ← sameFormula] at parsed
      have carried := carried_of_same_addresses h.laid h.laid' h.reshaped
        (h.addressOf_eq_of_not_mem ok before missing)
      rw [ofInput_carries parsed carried, rename_id]
    · exact ofInput_empty _
  · obtain ⟨-, -, -, -, parsed⟩ := h.restated_of_mem ok member
    exact parsed

theorem Sound.stated_insertLine (sound : s.Sound) (small : s.Representable)
    (small' : (s.insertCells axis i).Representable) (inside : i ≤ s.lineCount axis)
    (stated : s.Stated) : (s.insertLine axis i).sheet.Stated := by
  rw [insertLine_of_le inside]
  refine (sound.changed_insertCells small small' inside).stated stated fun id c found => ?_
  rw [cells_insertCells] at found
  rcases CellStore.exists_of_get?_allocate found with old | ⟨new, -, -⟩
  · exact .inl ⟨c, old, rfl⟩
  · exact .inr new

theorem Sound.stated_deleteLine (sound : s.Sound) (small : s.Representable)
    (inside : i < s.lineCount axis) (unread : s.LineUnread axis i) (stated : s.Stated) :
    (s.deleteLine axis i).sheet.Stated := by
  rw [sound.wired.deleteLine_of_unread inside unread]
  refine (sound.changed_deleteCells small inside unread).stated stated fun id c found => ?_
  rw [get?_deleteCells sound.wired] at found
  split at found
  · cases found
  · obtain ⟨d, before, rfl⟩ := Option.map_eq_some_iff.mp found
    exact .inl ⟨d, before, by simp [Cell.entry]⟩

theorem Stated.apply (stated : s.Stated) (sound : s.Sound) (small : s.Representable) {op : Operation}
    (small' : (s.apply op).sheet.Representable) : (s.apply op).sheet.Stated := by
  cases op with
  | setInput a raw => exact stated.setInput a raw
  | clear a => exact stated.setInput a ""
  | subscribe a => exact stated.subscribe a
  | unsubscribe l => exact stated.unsubscribe l
  | insertLine axis i =>
    show (s.insertLine axis i).sheet.Stated
    rcases s.insertLine_cases axis i with same | ⟨inside, -⟩
    · rw [same]
      exact stated
    · exact sound.stated_insertLine small (small'.of_insertLine inside) inside stated
  | deleteLine axis i =>
    show (s.deleteLine axis i).sheet.Stated
    rcases sound.deleteLine_cases axis i with same | ⟨inside, unread, -⟩
    · rw [same]
      exact stated
    · exact sound.stated_deleteLine small inside unread stated
  | recalculate => exact stated.alike (alike_recalculate Cell.entry_recompute s)

theorem Reachable.stated (reachable : s.Reachable) : s.Stated :=
  reachable.invariant stated_ofSize fun _ _ before stated small =>
    stated.apply before.sound before.representable small

theorem ofInput_raw (reachable : s.Reachable) {id : CellId} {c : Cell}
    (live : s.cells.get? id = some c) : Formula.ofInput s.resolver c.raw = .ok c.formula :=
  reachable.stated id c live

/-- The input of `B3` has been rewritten when the row was inserted. -/
theorem ofInput_raw_sample : ∃ c, sample.cells.get? ⟨3⟩ = some c ∧ c.raw = "=SUM(A1:A3)*3+B1" ∧
    Formula.ofInput sample.resolver c.raw = .ok c.formula := by
  have raw : (sample.cells.get? ⟨3⟩).map Cell.raw = some "=SUM(A1:A3)*3+B1" := by decide +kernel
  obtain ⟨c, found, raw⟩ := Option.map_eq_some_iff.mp raw
  exact ⟨c, found, raw, ofInput_raw reachable_sample found⟩

/-! The text of a formula on its own sheet. -/

/-- With the addresses of its own sheet a tree restates to itself. -/
theorem Laid.restated_self (laid : s.Laid) (small : s.Representable) {f : Formula}
    (leaves : ∀ leaf ∈ f.leaves, leaf.IsLeafOf s.resolver) :
    Restated s.resolver s.addressOf f f := by
  induction f with
  | number n => exact .number (leaves (.number n) List.mem_cons_self)
  | text s => exact (leaves (.text s) List.mem_cons_self).elim
  | reference cell =>
    obtain ⟨a, found⟩ := leaves (.reference cell) List.mem_cons_self
    exact .reference (laid.addressOf_eq_some.mpr found)
      (laid.isWritable small (Option.isSome_of_eq_some found)) found
  | range op first rest =>
    obtain ⟨low, high, atLow, atHigh, cells⟩ :=
      laid.exists_ends (leaves (.range op first rest) List.mem_cons_self)
    have onLow := Option.isSome_of_eq_some atLow
    have onHigh := Option.isSome_of_eq_some atHigh
    exact .range (laid.addressOf_eq_some.mpr atLow) (laid.addressOf_eq_some.mpr atHigh)
      (laid.isWritable small onLow) (laid.isWritable small onHigh)
      (resolver_range.mpr ⟨⟨onLow, onHigh⟩, cells⟩)
  | negate operand ih => exact .negate (ih leaves)
  | binary op left right ihl ihr =>
    exact .binary (ihl fun leaf member => leaves leaf (List.mem_append_left _ member))
      (ihr fun leaf member => leaves leaf (List.mem_append_right _ member))

theorem parse_render (reachable : s.Reachable) {text : List Char} {f : Formula}
    (parsed : Formula.parse s.resolver text = .ok f) :
    Formula.parse s.resolver (f.render s.addressOf).toList = .ok f := by
  obtain ⟨tree, nested⟩ := parse_fits parsed
  have restated := reachable.sound.laid.restated_self reachable.representable tree.leaves
  unfold render
  rw [String.toList_ofList]
  exact restated.parse nested tree.depth_le

/-- Corners, blanks, signs and parentheses come out in their one form. -/
theorem parse_render_sample : ∃ f,
    Formula.parse sample.resolver " +(SUM( A3:A1 )) - (B1-(-3)^(2^.50))".toList = .ok f ∧
      f.render sample.addressOf = "SUM(A1:A3)-(B1-(-3)^2^0.5)" ∧
      Formula.parse sample.resolver (f.render sample.addressOf).toList = .ok f := by
  have parsed : Formula.parse sample.resolver " +(SUM( A3:A1 )) - (B1-(-3)^(2^.50))".toList =
      .ok (.binary .sub (.range .sum ⟨0⟩ [⟨4⟩, ⟨1⟩]) (.binary .sub (.reference ⟨2⟩)
        (.binary .pow (.negate (.number 3)) (.binary .pow (.number 2) (.number 0.5))))) := by
    decide +kernel
  exact ⟨_, parsed, by decide +kernel, parse_render reachable_sample parsed⟩

end Sheet
end Spreadsheet
