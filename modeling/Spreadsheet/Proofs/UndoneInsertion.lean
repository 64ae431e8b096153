import Spreadsheet.Proofs.Deletion
import Spreadsheet.Proofs.FailedCalls
import Spreadsheet.Proofs.Insertion

/-! A line that has been inserted can be deleted again unless a range has taken in its cells, and
then all is as before, but for how formulas are written. -/
namespace Spreadsheet

/-- A range with what it takes in is read. -/
theorem Formula.mem_cells_respan {s : Sheet} {f : Formula} {op : Aggregate} {first : CellId}
    {rest : List CellId} (member : .range op first rest ∈ f.leaves) {p : CellId}
    (inside : p ∈ s.span first rest) : p ∈ (f.respan s).cells := by
  induction f with
  | number | text | reference => cases List.mem_singleton.mp member
  | range op' first' rest' =>
    cases List.mem_singleton.mp member
    rw [respan]
    cases taken : s.span first rest with
    | nil =>
      rw [taken] at inside
      cases inside
    | cons head tail => rwa [taken] at inside
  | negate operand ih => exact ih member
  | binary op left right ihl ihr =>
    rcases List.mem_append.mp member with member | member
    · exact List.mem_append_left _ (ihl member)
    · exact List.mem_append_right _ (ihr member)

namespace Sheet
open Spreadsheet.Formula

variable {s t : Sheet} {axis : Axis} {i : Nat} {p : CellId} {c : Cell}

/-- Some formula has a range with a cell before line `i` and with one on it or behind it. -/
def Cut (s : Sheet) (axis : Axis) (i : Nat) : Prop :=
  ∃ id c op first rest, s.cells.get? id = some c ∧ .range op first rest ∈ c.formula.leaves ∧
    ∃ a b p q, s.idAt? a = some p ∧ s.idAt? b = some q ∧ p ∈ first :: rest ∧ q ∈ first :: rest ∧
      a.along axis < i ∧ i ≤ b.along axis

/-- As it was: the same cells in the same places, with formulas, values, listeners and subscribers
in the same order. An input may have been written anew. -/
structure Restored (s t : Sheet) : Prop where
  width : t.width = s.width
  height : t.height = s.height
  places : ∀ a, t.idAt? a = s.idAt? a
  live : ∀ id, (t.cells.get? id).isSome ↔ (s.cells.get? id).isSome
  listeners : t.listeners = s.listeners
  cells : ∀ id c, s.cells.get? id = some c → ∃ d, t.cells.get? id = some d ∧
    d.formula = c.formula ∧ d.value = c.value ∧ d.subscribers = c.subscribers ∧
    (d.raw = c.raw ∨ d.raw = "=" ++ d.formula.render t.addressOf)

theorem Inserted.not_mem_line (inserted : Inserted s t axis i) (laid : s.Laid) (laid' : t.Laid)
    (old : (s.cells.get? p).isSome) : p ∉ t.line axis i := by
  intro on
  obtain ⟨a, on, here⟩ := mem_line.mp on
  obtain ⟨b, before⟩ := (laid.live p).mpr old
  have same := laid'.unique _ _ p ((inserted.places b).trans before) here
  exact Address.along_opened_ne (same ▸ on)

/-! A range that is cut takes in a cell of the new line, and is read with it. -/

theorem Sound.exists_taken (sound : s.Sound) (small : s.Representable)
    (small' : (s.insertCells axis i).Representable) (inside : i ≤ s.lineCount axis)
    (found : s.cells.get? p = some c) {op : Aggregate} {first : CellId} {rest : List CellId}
    (member : .range op first rest ∈ c.formula.leaves) {a b : Address} {q r : CellId}
    (atA : s.idAt? a = some q) (atB : s.idAt? b = some r) (inA : q ∈ first :: rest)
    (inB : r ∈ first :: rest) (before : a.along axis < i) (behind : i ≤ b.along axis) :
    ∃ new ∈ (s.insertLine axis i).sheet.line axis i,
      new ∈ (s.insertLine axis i).sheet.span first rest := by
  have changed := sound.changed_insertCells small small' inside
  have inserted := sound.inserted small small' inside
  have laid' := (sound.insertLine small small' inside).2.laid
  obtain ⟨low, high, atLow, atHigh, rectangle, -⟩ :=
    changed.exists_span (get?_insertCells_of_live found) member
  have ordered := sound.laid.le_of_rectangle atLow atHigh rectangle
  -- The corners lie on both sides of the new line, since the two cells do.
  have sides {z : Address} {x : CellId} (atZ : s.idAt? z = some x) (inZ : x ∈ first :: rest) :
      low.along axis ≤ z.along axis ∧ z.along axis ≤ high.along axis := by
    rw [← rectangle] at inZ
    obtain ⟨z', between, atZ'⟩ := mem_rectangle.mp inZ
    rw [sound.laid.unique z z' x atZ atZ']
    exact between.along_le ordered axis
  have front := (sides atA inA).1
  have back := (sides atB inB).2
  have atLow' := (inserted.places low).trans atLow
  have atHigh' := (inserted.places high).trans atHigh
  obtain ⟨z, between, on⟩ : ∃ z : Address,
      (low.opened axis i).Between (high.opened axis i) z ∧ z.along axis = i := by
    apply Address.exists_between_along
    · rw [Address.along_opened, stepOver, if_pos (by omega)]
      omega
    · rw [Address.along_opened, stepOver, if_neg (by omega)]
      omega
  obtain ⟨new, atZ⟩ := Option.isSome_iff_exists.mp (laid'.isSome_between
    (Option.isSome_of_eq_some atLow') (Option.isSome_of_eq_some atHigh') between)
  refine ⟨new, mem_line.mpr ⟨z, on, atZ⟩, (inserted.ranges p c op first rest found member new).mpr ?_⟩
  exact .inr ⟨z, on, by rwa [laid'.position_of_idAt? atLow', laid'.position_of_idAt? atHigh'], atZ⟩

theorem Sound.read_of_cut (sound : s.Sound) (small : s.Representable)
    (small' : (s.insertCells axis i).Representable) (inside : i ≤ s.lineCount axis)
    (cut : s.Cut axis i) : ¬ (s.insertLine axis i).sheet.LineUnread axis i := by
  obtain ⟨id, c, op, first, rest, found, member, a, b, p, q, atA, atB, inA, inB, before, behind⟩ := cut
  have inserted := sound.inserted small small' inside
  have laid' := (sound.insertLine small small' inside).2.laid
  obtain ⟨new, on, taken⟩ := sound.exists_taken small small' inside found member atA atB inA inB
    before behind
  obtain ⟨d, after, follows⟩ := inserted.cells id c found
  have reads : (s.insertLine axis i).sheet.Reads id new := by
    refine reads_iff.mpr ⟨d, after, mem_precedents.mpr ?_⟩
    rw [follows.formula]
    exact mem_cells_respan member taken
  intro unread
  exact inserted.not_mem_line sound.laid laid' (Option.isSome_of_eq_some found)
    (unread id new reads on)

/-! Where no range is cut, the new line concerns nobody. -/

theorem Sound.span_insertCells (sound : s.Sound) (small : s.Representable)
    (small' : (s.insertCells axis i).Representable) (inside : i ≤ s.lineCount axis)
    (uncut : ¬ s.Cut axis i) (found : s.cells.get? p = some c) {op : Aggregate} {first : CellId}
    {rest : List CellId} (member : .range op first rest ∈ c.formula.leaves) :
    (s.insertCells axis i).span first rest = first :: rest := by
  have changed := sound.changed_insertCells small small' inside
  have opens : Opens s (s.insertCells axis i) axis i := opens_insertCells
  obtain ⟨low, high, atLow, atHigh, rectangle, atLow', atHigh'⟩ :=
    changed.exists_span (get?_insertCells_of_live found) member
  unfold span
  rw [← opens.opened_eq changed.laid' atLow atLow', ← opens.opened_eq changed.laid' atHigh atHigh',
    opens.rectangle_opened, rectangle]
  by_contra apart
  have along := Address.along_le_along (sound.laid.le_of_rectangle atLow atHigh rectangle) axis
  have last : rest.getLast?.getD first ∈ first :: rest :=
    (Formula.range op first rest).ends_subset_cells (by simp [ends])
  exact uncut ⟨p, c, op, first, rest, found, member, low, high, _, _, atLow, atHigh,
    List.mem_cons_self, last, by omega, by omega⟩

theorem Sound.revalued_insertLine (sound : s.Sound) (small : s.Representable)
    (small' : (s.insertCells axis i).Representable) (inside : i ≤ s.lineCount axis)
    (uncut : ¬ s.Cut axis i) : Revalued (s.insertCells axis i) (s.insertLine axis i).sheet := by
  rw [insertLine_of_le inside]
  refine (sound.changed_insertCells small small' inside).revalued_reflow fun p c found => ?_
  rw [cells_insertCells] at found
  rcases CellStore.exists_of_get?_allocate found with old | ⟨rfl, -, -⟩
  · exact respan_eq_self fun _ _ _ => sound.span_insertCells small small' inside uncut old
  · rfl

theorem Sound.unread_of_uncut (sound : s.Sound) (small : s.Representable)
    (small' : (s.insertCells axis i).Representable) (inside : i ≤ s.lineCount axis)
    (uncut : ¬ s.Cut axis i) : (s.insertLine axis i).sheet.LineUnread axis i := by
  have laid' := (sound.insertLine small small' inside).2.laid
  intro q p reads on
  rw [reads_alike (sound.revalued_insertLine small small' inside uncut).formulas,
    reads_insertCells] at reads
  exact absurd on ((sound.inserted small small' inside).not_mem_line sound.laid laid'
    (sound.wired.read_live q p reads))

/-- What the insertion makes of a cell. -/
theorem Sound.get?_insertLine (sound : s.Sound) (small : s.Representable)
    (small' : (s.insertCells axis i).Representable) (inside : i ≤ s.lineCount axis)
    (uncut : ¬ s.Cut axis i) (found : s.cells.get? p = some c) :
    ∃ d, (s.insertLine axis i).sheet.cells.get? p = some d ∧
      Followed s (s.insertLine axis i).sheet c d ∧ d.formula = c.formula ∧ d.value = c.value ∧
      d.subscribers = c.subscribers := by
  have revalued := sound.revalued_insertLine small small' inside uncut
  have sound' := (sound.insertLine small small' inside).2
  have kept {q : CellId} {e : Cell} (found : s.cells.get? q = some e) :
      ∃ d, (s.insertLine axis i).sheet.cells.get? q = some d ∧ d.formula = e.formula ∧
        d.subscribers = e.subscribers := by
    have cells := revalued.cells q
    rw [get?_insertCells_of_live found, Option.map_some] at cells
    obtain ⟨d, after, same⟩ := Option.map_eq_some_iff.mp cells
    exact ⟨d, after, Prod.mk.inj same⟩
  have value : (s.insertLine axis i).sheet.cells.valueOf p = s.cells.valueOf p := by
    refine sound.valueOf_kept sound'.current (fun _ => True)
      (fun _ _ _ _ => trivial) (fun q e _ found => ?_) trivial (Option.isSome_of_eq_some found)
    obtain ⟨d, after, formula, -⟩ := kept found
    exact ⟨d, after, formula⟩
  obtain ⟨d, after, formula, subscribers⟩ := kept found
  obtain ⟨d', after', follows⟩ := (sound.inserted small small' inside).cells p c found
  cases after.symm.trans after'
  unfold CellStore.valueOf at value
  rw [found, after] at value
  exact ⟨d, after, follows, formula, Option.some.inj value, subscribers⟩

/-- A formula that was written anew and has not moved since is written the same once more. -/
theorem Followed.raw_eq {u : Sheet} {d e : Cell} (first : Followed s t c d)
    (second : Followed t u d e) (formula : e.formula = d.formula) :
    e.raw = c.raw ∨ e.raw = "=" ++ e.formula.render u.addressOf := by
  by_cases moved : ∃ p ∈ d.formula.precedents, u.addressOf p ≠ t.addressOf p
  · exact .inr (second.rewritten moved)
  · have stay : ∀ p ∈ d.formula.precedents, u.addressOf p = t.addressOf p := by
      simpa using moved
    rw [second.kept stay]
    by_cases moved : ∃ p ∈ c.formula.precedents, t.addressOf p ≠ s.addressOf p
    · refine .inr ?_
      rw [first.rewritten moved, formula]
      congr 1
      exact render_congr fun p isEnd =>
        (stay p (mem_precedents.mpr (d.formula.ends_subset_cells isEnd))).symm
    · exact .inl (first.kept (by simpa using moved))

section undone
variable (sound : s.Sound) (small : s.Representable)
  (small' : (s.insertCells axis i).Representable) (inside : i ≤ s.lineCount axis)
  (uncut : ¬ s.Cut axis i)
include sound small small' inside uncut

theorem Sound.deletable : (s.insertLine axis i).sheet.Representable ∧
    i < (s.insertLine axis i).sheet.lineCount axis ∧
    (s.insertLine axis i).sheet.LineUnread axis i := by
  refine ⟨?_, ?_, sound.unread_of_uncut small small' inside uncut⟩
  · rw [insertLine_of_le inside]
    exact small'.congr (sameFrame_reflow _ _).symm
  · rw [(sound.inserted small small' inside).count]
    omega

theorem Sound.idAt?_deleteLine_insertLine (a : Address) :
    ((s.insertLine axis i).sheet.deleteLine axis i).sheet.idAt? a = s.idAt? a := by
  obtain ⟨-, inside', unread⟩ := sound.deletable small small' inside uncut
  rw [(sound.insertLine small small' inside).2.wired.deleteLine_of_unread inside' unread,
    idAt?_congr (sameFrame_reflow _ _).columns, ← opens_deleteCells,
    (sound.inserted small small' inside).places]

/-- What the insertion and the deletion make of a cell. -/
theorem Sound.get?_deleteLine_insertLine (found : s.cells.get? p = some c) :
    ∃ d, ((s.insertLine axis i).sheet.deleteLine axis i).sheet.cells.get? p = some d ∧
      d.formula = c.formula ∧ d.value = c.value ∧ d.subscribers = c.subscribers ∧
      (d.raw = c.raw ∨ d.raw =
        "=" ++ d.formula.render ((s.insertLine axis i).sheet.deleteLine axis i).sheet.addressOf) := by
  have inserted := sound.inserted small small' inside
  have sound' := (sound.insertLine small small' inside).2
  obtain ⟨small'', inside', unread⟩ := sound.deletable small small' inside uncut
  have old {q : CellId} {e : Cell} (live : s.cells.get? q = some e) :
      q ∉ (s.insertLine axis i).sheet.line axis i :=
    inserted.not_mem_line sound.laid sound'.laid (Option.isSome_of_eq_some live)
  obtain ⟨d, after, follows, formula, value, subscribers⟩ :=
    sound.get?_insertLine small small' inside uncut found
  obtain ⟨d', after', follows', formula', value', subscribers'⟩ :=
    (sound'.deleted small'' inside' unread).cells p d after (old found)
  refine ⟨d', after', formula'.trans formula, value'.trans value, ?_,
    follows.raw_eq follows' formula'⟩
  -- No reader of the cell is on the line, for those that were there before are not.
  rw [subscribers', subscribers, List.filter_eq_self]
  intro reader subscribed
  refine decide_eq_true ?_
  rintro r on rfl
  have reads := (sound.wired.readers p c r found).mp subscribed
  obtain ⟨cell, live, -⟩ := reads_iff.mp reads
  exact old live on

theorem Sound.restored : Restored s ((s.insertLine axis i).sheet.deleteLine axis i).sheet := by
  have inserted := sound.inserted small small' inside
  have sound' := (sound.insertLine small small' inside).2
  obtain ⟨small'', inside', unread⟩ := sound.deletable small small' inside uncut
  have laid'' := (sound'.deleteLine small'' inside' unread).2.laid
  have deleted := sound'.deleted small'' inside' unread
  have count := Nat.succ.inj (deleted.count.trans inserted.count)
  have length := deleted.length.trans inserted.length
  have places := sound.idAt?_deleteLine_insertLine small small' inside uncut
  constructor
  case width =>
    cases axis
    · exact length
    · exact count
  case height =>
    cases axis
    · exact count
    · exact length
  case places => exact places
  case live =>
    intro q
    rw [← laid''.live, ← sound.laid.live]
    simp only [places]
  case listeners =>
    rw [deleted.listeners, inserted.listeners, List.filter_eq_self]
    rintro ⟨l, q⟩ watched
    exact decide_eq_true
      (inserted.not_mem_line sound.laid sound'.laid (sound.wired.watched_live l q watched))
  case cells =>
    exact fun _ _ found => sound.get?_deleteLine_insertLine small small' inside uncut found

end undone

theorem deleteLine_insertLine (reachable : s.Reachable) (inside : i ≤ s.lineCount axis)
    {o : Outcome Unit} (returns : s.Returns (.insertLine axis i) o) :
    ((o.sheet.deleteLine axis i).result = .ok () ↔ ¬ s.Cut axis i) ∧
    ((o.sheet.deleteLine axis i).result = .ok () →
      Restored s (o.sheet.deleteLine axis i).sheet) ∧
    ∀ e, (o.sheet.deleteLine axis i).result = .error e →
      (∃ a b, e = .referenced a b) ∧ o.sheet.deleteLine axis i = o.sheet.failed e := by
  obtain ⟨rfl, small''⟩ := returns
  have sound := reachable.sound
  have small := reachable.representable
  have small' := small''.of_insertLine inside
  have sound' := (sound.insertLine small small' inside).2
  have inside' : i < (s.insertLine axis i).sheet.lineCount axis := by
    rw [(sound.inserted small small' inside).count]
    omega
  have uncut_of_ok (ok : ((s.insertLine axis i).sheet.deleteLine axis i).result = .ok ()) :
      ¬ s.Cut axis i :=
    fun cut => sound.read_of_cut small small' inside cut (sound'.unread_of_deleteLine ok).2
  refine ⟨⟨uncut_of_ok, fun uncut => ?_⟩, fun ok => ?_, fun e error => ?_⟩
  · exact (sound'.deleteLine small'' inside' (sound.unread_of_uncut small small' inside uncut)).1
  · exact sound.restored small small' inside (uncut_of_ok ok)
  · obtain ⟨failed, ⟨outside, -⟩ | ⟨p, c, -, -, -, referenced⟩⟩ := sound'.failed_deleteLine small'' error
    · exact absurd inside' (Nat.not_lt.mpr outside)
    · exact ⟨⟨_, _, referenced⟩, failed⟩

/-- A row in front of all can go again, but not one amid the range of `B3`. -/
theorem deleteLine_insertLine_sample :
    Restored sample ((sample.apply (.insertLine .row 0)).sheet.deleteLine .row 0).sheet ∧
      sample.Cut .row 1 ∧
      ((sample.apply (.insertLine .row 1)).sheet.deleteLine .row 1).result =
        .error (.referenced ⟨0, 1⟩ ⟨1, 3⟩) := by
  have top : 0 ≤ sample.lineCount .row := Nat.zero_le _
  have second : 1 ≤ sample.lineCount .row := by decide +kernel
  have front := deleteLine_insertLine reachable_sample top ⟨rfl, by decide +kernel⟩
  have amid := deleteLine_insertLine reachable_sample second ⟨rfl, by decide +kernel⟩
  have failed : ((sample.apply (.insertLine .row 1)).sheet.deleteLine .row 1).result =
      .error (.referenced ⟨0, 1⟩ ⟨1, 3⟩) := by decide +kernel
  refine ⟨front.2.1 (by decide +kernel), ?_, failed⟩
  by_contra uncut
  rw [amid.1.mpr uncut] at failed
  cases failed

end Sheet
end Spreadsheet
