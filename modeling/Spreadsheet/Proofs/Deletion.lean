import Spreadsheet.Proofs.Following

/-! A line that is deleted takes nothing along but itself. -/
namespace Spreadsheet.Sheet
open Spreadsheet.Formula

variable {s t : Sheet} {axis : Axis} {i : Nat}

/-- Line `i` is gone, with its cells, their listeners and their subscriptions. All other cells hold
what they held. -/
structure Deleted (s t : Sheet) (axis : Axis) (i : Nat) : Prop where
  count : t.lineCount axis + 1 = s.lineCount axis
  length : t.lineLength axis = s.lineLength axis
  gone : ∀ p ∈ s.line axis i, t.cells.get? p = none ∧ ∀ a, t.idAt? a ≠ some p
  places : ∀ a p, s.idAt? a = some p → a.along axis ≠ i → t.idAt? (a.closed axis i) = some p
  listeners : t.listeners = s.listeners.filter (·.2 ∉ s.line axis i)
  cells : ∀ id c, s.cells.get? id = some c → id ∉ s.line axis i →
    ∃ d, t.cells.get? id = some d ∧ Followed s t c d ∧ d.formula = c.formula ∧ d.value = c.value ∧
      d.subscribers = c.subscribers.filter fun reader => ∀ p ∈ s.line axis i, reader ≠ .cell p

/-! Restating a formula by itself. -/

theorem Wired.revalued_adopt (wired : s.Wired) {id : CellId} {c : Cell}
    (found : s.cells.get? id = some c) (raw : String) :
    Revalued s (s.adopt id raw c.formula Cell.value) := by
  have reads : s.precedents id = c.formula.precedents := by
    unfold precedents
    rw [found]
    rfl
  refine ⟨sameFrame_adopt s id raw c.formula Cell.value, fun q => ?_⟩
  rw [get?_adopt, Option.map_map]
  apply Option.map_congr
  intro d here
  have linked : d.relink id (q ∈ c.formula.precedents) (q ∈ s.precedents id) = d := by
    refine Cell.relink_eq_self (fun read => ?_) fun read => reads ▸ read
    exact (wired.readers q d id here).mpr (reads_iff.mpr ⟨c, found, read⟩)
  simp only [Function.comp_apply, linked]
  split
  · rename_i same
    rw [same, found] at here
    cases here
    rfl
  · rfl

theorem Wired.revalued_restate (wired : s.Wired) {new : List (CellId × String × Formula)}
    (same : ∀ e ∈ new, ∃ c, s.cells.get? e.1 = some c ∧ c.formula = e.2.2) :
    Revalued s (s.restate new) := by
  induction new generalizing s with
  | nil => exact .refl s
  | cons e new ih =>
    obtain ⟨id, raw, formula⟩ := e
    obtain ⟨c, found, rfl⟩ := same _ List.mem_cons_self
    have step := wired.revalued_adopt found raw
    rw [restate_cons]
    refine step.trans (ih (wired.revalued step) fun e member => ?_)
    obtain ⟨d, here, same⟩ := same e (List.mem_cons_of_mem _ member)
    obtain ⟨d', after⟩ := Option.isSome_iff_exists.mp
      ((step.alike.isSome_get? e.1).trans (Option.isSome_of_eq_some here))
    obtain ⟨d'', here', kept⟩ := step.formulas.exists_get? after
    rw [here] at here'
    cases here'
    exact ⟨d', after, kept.trans same⟩

/-- If no range takes in anything, only inputs and values can change. -/
theorem Changed.revalued_reflow (h : Changed s t)
    (full : ∀ id c, t.cells.get? id = some c → c.formula.respan t = c.formula) :
    Revalued t (t.reflow s.addressOf).sheet := by
  obtain ⟨new, ok⟩ := h.exists_restatements
  rw [reflow_eq_recalculate ok]
  have same : ∀ e ∈ new, ∃ c, t.cells.get? e.1 = some c ∧ c.formula = e.2.2 := by
    rintro ⟨id, raw, g⟩ member
    obtain ⟨c, found, -, restated, -⟩ := h.restated_of_mem ok member
    exact ⟨c, found, (restated.eq_respan.trans (full id c found)).symm⟩
  have recalculated := (recalculate_ok (h.wired_restate ok) (h.acyclic_restate ok)).2.1
  exact (h.wired'.revalued_restate same).trans recalculated

/-! The sheet without the line, before any formula is restated. -/

theorem get?_deleteCells_of_not_mem (wired : s.Wired) {id : CellId} {c : Cell}
    (found : s.cells.get? id = some c) (off : id ∉ s.line axis i) :
    (s.deleteCells axis i).cells.get? id = some (c.dropReaders (s.line axis i)) := by
  rw [get?_deleteCells wired, if_neg off, found]
  rfl

/-- A range that a cell off the line reads lies on one side of the line. -/
theorem Sound.span_deleteCells (sound : s.Sound) (small : s.Representable)
    (inside : i < s.lineCount axis) (unread : s.LineUnread axis i) {id : CellId} {c : Cell}
    (found : s.cells.get? id = some c) (off : id ∉ s.line axis i) {op : Aggregate} {first : CellId}
    {rest : List CellId} (member : .range op first rest ∈ c.formula.leaves) :
    (s.deleteCells axis i).span first rest = first :: rest := by
  have changed := sound.changed_deleteCells small inside unread
  have opens : Opens (s.deleteCells axis i) s axis i := opens_deleteCells
  obtain ⟨low, high, atLow, atHigh, rectangle, atLow', atHigh'⟩ :=
    changed.exists_span (get?_deleteCells_of_not_mem sound.wired found off)
      (by rwa [Cell.formula_dropReaders])
  have front := opens.opened_eq sound.laid atLow' atLow
  have back := opens.opened_eq sound.laid atHigh' atHigh
  unfold span
  rw [← rectangle, ← front, ← back]
  refine (opens.rectangle_opened ?_).symm
  -- Else the line would cut the range, in a cell that is read from off it.
  by_contra cut
  have ordered := sound.laid.le_of_rectangle atLow atHigh rectangle
  rw [← front, ← back, Address.opened_le_opened] at ordered
  have along := Address.along_le_along ordered axis
  have sides : low.along axis ≤ i ∧ i ≤ high.along axis := by
    rw [← front, ← back, Address.along_opened, Address.along_opened]
    unfold stepOver
    split <;> split <;> omega
  obtain ⟨a, between, on⟩ := Address.exists_between_along sides.1 sides.2
  obtain ⟨p, here⟩ := Option.isSome_iff_exists.mp
    (sound.laid.isSome_between (Option.isSome_of_eq_some atLow) (Option.isSome_of_eq_some atHigh) between)
  have read : p ∈ (Formula.range op first rest).cells := by
    rw [Formula.cells, ← rectangle]
    exact mem_rectangle.mpr ⟨a, between, here⟩
  have reads : s.Reads id p :=
    reads_iff.mpr ⟨c, found, mem_precedents.mpr (mem_cells_iff.mpr ⟨_, member, read⟩)⟩
  exact off (unread id p reads (mem_line.mpr ⟨a, on, here⟩))

section deleteLine
variable {p : CellId} {c : Cell}

/-- So no range takes in anything. -/
theorem Sound.respan_deleteCells (sound : s.Sound) (small : s.Representable)
    (inside : i < s.lineCount axis) (unread : s.LineUnread axis i)
    (found : (s.deleteCells axis i).cells.get? p = some c) :
    c.formula.respan (s.deleteCells axis i) = c.formula := by
  rw [get?_deleteCells sound.wired] at found
  split at found
  · cases found
  · rename_i off
    obtain ⟨d, before, rfl⟩ := Option.map_eq_some_iff.mp found
    rw [Cell.formula_dropReaders]
    exact respan_eq_self fun _ _ _ => sound.span_deleteCells small inside unread before off

/-- What becomes of a cell off the line, but for its value. -/
theorem Sound.get?_deleteLine (sound : s.Sound) (small : s.Representable)
    (inside : i < s.lineCount axis) (unread : s.LineUnread axis i)
    (found : s.cells.get? p = some c) (off : p ∉ s.line axis i) :
    ∃ d, (s.deleteLine axis i).sheet.cells.get? p = some d ∧
      Followed s (s.deleteLine axis i).sheet c d ∧ d.formula = c.formula ∧
      d.subscribers = c.subscribers.filter fun reader => ∀ q ∈ s.line axis i, reader ≠ .cell q := by
  have changed := sound.changed_deleteCells small inside unread
  have between := get?_deleteCells_of_not_mem sound.wired found off
  have revalued := changed.revalued_reflow fun _ _ => sound.respan_deleteCells small inside unread
  rw [sound.wired.deleteLine_of_unread inside unread]
  obtain ⟨d, after, follows⟩ := changed.followed (.inr opens_deleteCells) between
  obtain ⟨e, between', same⟩ := revalued.alike.exists_get? after
  cases between.symm.trans between'
  obtain ⟨formula, subscribers⟩ := Prod.mk.inj same
  refine ⟨d, after, ?_, formula.trans (Cell.formula_dropReaders _ c), ?_⟩
  · constructor
    case formula => rw [follows.formula, Cell.formula_dropReaders]
    case rewritten => simpa only [Cell.formula_dropReaders] using follows.rewritten
    case kept => simpa only [Cell.formula_dropReaders, Cell.raw_dropReaders] using follows.kept
    case listeners => rw [follows.listeners, Cell.listeners_dropReaders]
  · rw [subscribers, Cell.subscribers_dropReaders (sound.wired.nodup p c found)]

/-- Its value stays, as do those of all cells that it reads, for none of them is on the line. -/
theorem Sound.valueOf_deleteLine (sound : s.Sound) (small : s.Representable)
    (inside : i < s.lineCount axis) (unread : s.LineUnread axis i) (live : (s.cells.get? p).isSome)
    (off : p ∉ s.line axis i) :
    (s.deleteLine axis i).sheet.cells.valueOf p = s.cells.valueOf p := by
  have sound' := (sound.deleteLine small inside unread).2
  refine sound.valueOf_kept sound'.current (· ∉ s.line axis i)
    (fun q r off reads on => off (unread q r reads on)) (fun q c off found => ?_) off live
  obtain ⟨d, after, -, formula, -⟩ := sound.get?_deleteLine small inside unread found off
  exact ⟨d, after, formula⟩

theorem Sound.get?_deleteLine_eq_none (sound : s.Sound) (small : s.Representable)
    (inside : i < s.lineCount axis) (unread : s.LineUnread axis i) (on : p ∈ s.line axis i) :
    (s.deleteLine axis i).sheet.cells.get? p = none := by
  have changed := sound.changed_deleteCells small inside unread
  have revalued := changed.revalued_reflow fun _ _ => sound.respan_deleteCells small inside unread
  rw [sound.wired.deleteLine_of_unread inside unread, ← Option.not_isSome_iff_eq_none,
    revalued.alike.isSome_get?, get?_deleteCells sound.wired, if_pos on]
  exact Bool.false_ne_true

end deleteLine

theorem Sound.deleted (sound : s.Sound) (small : s.Representable) (inside : i < s.lineCount axis)
    (unread : s.LineUnread axis i) : Deleted s (s.deleteLine axis i).sheet axis i := by
  have laid' := (sound.deleteLine small inside unread).2.laid
  have frame : SameFrame (s.deleteCells axis i) (s.deleteLine axis i).sheet := by
    rw [sound.wired.deleteLine_of_unread inside unread]
    exact sameFrame_reflow _ _
  have counts := lineCount_deleteCells inside
  have counts' := lineCount_congr frame axis
  constructor
  case count => rw [counts'.1, counts.1]
  case length => rw [counts'.2, counts.2]
  case gone =>
    intro p on
    have gone := sound.get?_deleteLine_eq_none small inside unread on
    refine ⟨gone, fun a here => ?_⟩
    have live := laid'.live_of_idAt? here
    rw [gone] at live
    cases live
  case places =>
    intro a p here off
    rw [idAt?_congr frame.columns, ← opens_deleteCells, Address.opened_closed off, here]
  case listeners => rw [frame.listeners, listeners_deleteCells.1]
  case cells =>
    intro p c found off
    obtain ⟨d, after, follows, formula, subscribers⟩ :=
      sound.get?_deleteLine small inside unread found off
    have value := sound.valueOf_deleteLine small inside unread (Option.isSome_of_eq_some found) off
    unfold CellStore.valueOf at value
    rw [found, after] at value
    exact ⟨d, after, follows, formula, Option.some.inj value, subscribers⟩

theorem Sound.unread_of_deleteLine (sound : s.Sound) (ok : (s.deleteLine axis i).result = .ok ()) :
    i < s.lineCount axis ∧ s.LineUnread axis i := by
  by_cases inside : i < s.lineCount axis
  · refine ⟨inside, ?_⟩
    by_contra read
    obtain ⟨p, c, -, -, -, failed⟩ := sound.deleteLine_of_read inside read
    rw [failed] at ok
    cases ok
  · rw [deleteLine_of_le (Nat.le_of_not_lt inside)] at ok
    cases ok

theorem deleteLine_deleted (reachable : s.Reachable) {o : Outcome Unit}
    (returns : s.Returns (.deleteLine axis i) o) (ok : o.result = .ok ()) :
    Deleted s o.sheet axis i := by
  obtain ⟨rfl, -⟩ := returns
  have sound := reachable.sound
  obtain ⟨inside, unread⟩ := sound.unread_of_deleteLine ok
  exact sound.deleted reachable.representable inside unread

/-- A row in front of all has moved the formula of `B3` and what it reads. -/
def sampleMoved : Sheet := (sample.apply (.insertLine .row 0)).sheet

theorem deleteLine_deleted_sample :
    (sampleMoved.cells.get? ⟨3⟩).map Cell.raw = some "=SUM(A2:A4)*3+B2" ∧
      Deleted sampleMoved (sampleMoved.apply (.deleteLine .row 0)).sheet .row 0 ∧
      ((sampleMoved.apply (.deleteLine .row 0)).sheet.cells.get? ⟨3⟩).map Cell.raw =
        some "=SUM(A1:A3)*3+B1" := by
  have reachable : sampleMoved.Reachable := reachable_sample.apply _ (by decide +kernel)
  refine ⟨by decide +kernel, ?_, by decide +kernel⟩
  exact deleteLine_deleted reachable ⟨rfl, by decide +kernel⟩ (by decide +kernel)

end Spreadsheet.Sheet
