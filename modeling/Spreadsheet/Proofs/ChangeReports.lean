import Spreadsheet.Proofs.Deletion
import Spreadsheet.Proofs.NumberOrder
import Spreadsheet.Proofs.Propagation

/-! Whom a pass over the whole sheet tells: the listeners of the cells that hold another value than
before. A cell that holds NaN counts among them, since NaN differs from itself. -/
namespace Spreadsheet

namespace Sheet

variable {s t u : Sheet} {p : CellId} {axis : Axis} {i : Nat}

/-! One cell after the other. -/

/-- Whether a cell of both sheets has two values that do not agree. -/
def differs (s t : Sheet) (p : CellId) : Bool :=
  match s.cells.valueOf p, t.cells.valueOf p with
  | some v, some w => !v.agrees w
  | _, _ => false

theorem differs_iff : s.differs t p ↔ ∃ v w, s.cells.valueOf p = some v ∧
    t.cells.valueOf p = some w ∧ (¬ v.Same w ∨ v = .nan ∧ w = .nan) := by
  unfold differs
  split
  · rename_i v w before after
    rw [Bool.not_eq_true', Value.not_agrees_iff, before, after]
    simp
  · rename_i missing
    simp only [Bool.false_eq_true, false_iff]
    rintro ⟨v, w, before, after, -⟩
    exact missing v w before after

theorem differs_congr {s' t' : Sheet} (before : s'.cells.valueOf p = s.cells.valueOf p)
    (after : t'.cells.valueOf p = t.cells.valueOf p) : s'.differs t' p = s.differs t p := by
  unfold differs
  rw [before, after]

theorem valueOf_recompute_self (s : Sheet) (p : CellId) :
    (s.recompute p).cells.valueOf p = (s.recomputed? p).map Cell.value := by
  unfold CellStore.valueOf recomputed?
  rw [get?_recompute, Option.map_map, Option.map_map]
  simp only [if_true]

theorem changes_eq_differs (s : Sheet) (p : CellId) : s.changes p = s.differs (s.recompute p) p := by
  unfold changes differs
  rw [valueOf_recompute_self]
  cases s.cells.valueOf p with
  | none => rfl
  | some v => cases s.recomputed? p <;> rfl

theorem valueOf_foldl_recompute {order : List CellId} (missing : p ∉ order) :
    (order.foldl recompute s).cells.valueOf p = s.cells.valueOf p :=
  congrArg (Option.map Cell.value) (get?_foldl_recompute missing)

/-- Each cell is recomputed once, so what is compared is what it holds before all and after all. -/
theorem Enrolled.targets_refreshChanged (enrolled : s.Enrolled) (wired : s.Wired)
    {order : List CellId} (nodup : order.Nodup) : (s.refreshChanged order).2.map Call.target =
      (order.filter (s.differs (order.foldl Sheet.recompute s))).flatMap
        fun p => (s.listenersOf p).map (p, ·) := by
  induction order generalizing s with
  | nil => rfl
  | cons p rest ih =>
    obtain ⟨missing, nodup⟩ := List.nodup_cons.mp nodup
    have step := revalued_recompute s p
    have enrolled' := enrolled.recompute p
    have same := listenersOf_congr step.frame.listeners
    have first : s.changes p = s.differs (rest.foldl Sheet.recompute (s.recompute p)) p := by
      rw [changes_eq_differs]
      exact differs_congr rfl (valueOf_foldl_recompute missing).symm
    have others : rest.filter ((s.recompute p).differs (rest.foldl Sheet.recompute (s.recompute p))) =
        rest.filter (s.differs (rest.foldl Sheet.recompute (s.recompute p))) := by
      apply List.filter_congr
      intro q member
      exact differs_congr (valueOf_recompute fun same => missing (same ▸ member)) rfl
    show ((if s.changes p then (s.recompute p).callsFor p else []) ++
      ((s.recompute p).refreshChanged rest).2).map Call.target = _
    rw [List.map_append, ih enrolled' (wired.revalued step) nodup, same, others, first,
      enrolled'.callsFor (wired.revalued step), same, List.foldl_cons, List.filter_cons]
    split
    · rw [List.flatMap_cons, List.map_map]
      rfl
    · rfl

/-! The whole pass. -/

/-- Each listener is called once at most, for the cell that it watches, and just if the cell holds
another value than before or still holds NaN. -/
structure Reported (s t : Sheet) (calls : List Call) : Prop where
  once : (calls.map Call.listener).Nodup
  due : ∀ p l, (p, l) ∈ calls.map Call.target ↔ (l, p) ∈ t.listeners ∧
    ∃ v w, s.cells.valueOf p = some v ∧ t.cells.valueOf p = some w ∧
      (¬ v.Same w ∨ v = .nan ∧ w = .nan)

theorem Reported.congr {calls : List Call} (reported : Reported s t calls)
    (values : ∀ l p, (l, p) ∈ t.listeners → u.cells.valueOf p = s.cells.valueOf p) :
    Reported u t calls where
  once := reported.once
  due := by
    intro p l
    rw [reported.due, and_congr_right_iff]
    intro watched
    rw [values l p watched]

theorem Enrolled.reported_recalculate (enrolled : s.Enrolled) (wired : s.Wired)
    (acyclic : s.Acyclic) : Reported s s.recalculate.sheet s.recalculate.calls := by
  obtain ⟨order, walked⟩ := wired.exists_dependencyOrder acyclic s.cells.ids
  have nodup := Graph.topologicalOrder_nodup (topologicalOrder_of_dependencyOrder walked)
  have all := (ordered_of_dependencyOrder walked).2
  have targets := enrolled.targets_refreshChanged wired nodup
  rw [recalculate_of_dependencyOrder walked]
  constructor
  case once => exact wired.nodup_listeners_of_targets (nodup.sublist List.filter_sublist) targets
  case due =>
    intro p l
    simp only [targets, (revalued_foldl_recompute order s).frame.listeners]
    simp only [List.mem_flatMap, List.mem_filter, List.mem_map, Prod.mk.injEq, mem_listenersOf,
      differs_iff]
    constructor
    · rintro ⟨p, ⟨-, due⟩, l, watched, rfl, rfl⟩
      exact ⟨watched, due⟩
    · rintro ⟨watched, due⟩
      have listed := all (CellStore.mem_ids.mpr (wired.watched_live l p watched))
      exact ⟨p, ⟨listed, due⟩, l, watched, rfl, rfl⟩

/-- Recalculating alone changes no value. -/
theorem Sound.valueOf_recalculate (sound : s.Sound) (p : CellId) :
    s.recalculate.sheet.cells.valueOf p = s.cells.valueOf p := by
  have formulas := (recalculate_ok sound.wired sound.acyclic).2.1.formulas
  cases found : s.cells.get? p with
  | none =>
    have gone := formulas.isSome_get? p
    rw [found, Option.isSome_none, Option.isSome_eq_false_iff, Option.isNone_iff_eq_none] at gone
    unfold CellStore.valueOf
    rw [found, gone]
  | some c =>
    refine sound.valueOf_kept sound.recalculate.2.current (fun _ => True)
      (fun _ _ _ _ => trivial) (fun q c _ found => ?_) trivial (Option.isSome_of_eq_some found)
    have same := formulas.cells q
    rw [found, Option.map_some] at same
    exact Option.map_eq_some_iff.mp same

/-! A change of shape keeps values until it recalculates. -/

theorem valueOf_restate (new : List (CellId × String × Formula)) (s : Sheet) (p : CellId) :
    (s.restate new).cells.valueOf p = s.cells.valueOf p :=
  (alike_restate Cell.value_relink (fun _ _ _ => rfl) new s).cells p

theorem Changed.reported_reflow (h : Changed s t) (enrolled : t.Enrolled) :
    Reported t (t.reflow s.addressOf).sheet (t.reflow s.addressOf).calls := by
  obtain ⟨new, ok⟩ := h.exists_restatements
  have enrolled' : (t.restate new).Enrolled :=
    enrolled.alike (alike_restate Cell.listeners_relink (fun _ _ _ => rfl) new t)
      (sameFrame_restate new t).listeners
  rw [reflow_eq_recalculate ok]
  exact (enrolled'.reported_recalculate (h.wired_restate ok) (h.acyclic_restate ok)).congr
    fun _ p _ => (valueOf_restate new t p).symm

theorem Sound.reported_insertLine (sound : s.Sound) (enrolled : s.Enrolled)
    (small : s.Representable) (small' : (s.insertCells axis i).Representable)
    (inside : i ≤ s.lineCount axis) :
    Reported s (s.insertLine axis i).sheet (s.insertLine axis i).calls := by
  rw [insertLine_of_le inside]
  have changed := sound.changed_insertCells small small' inside
  refine (changed.reported_reflow (enrolled.insertCells sound.wired)).congr fun l p watched => ?_
  rw [(sameFrame_reflow _ _).listeners, listeners_insertCells.1] at watched
  obtain ⟨c, found⟩ := Option.isSome_iff_exists.mp (sound.wired.watched_live l p watched)
  unfold CellStore.valueOf
  rw [found, cells_insertCells, CellStore.get?_allocate_of_live found]

theorem Sound.reported_deleteLine (sound : s.Sound) (enrolled : s.Enrolled)
    (small : s.Representable) (inside : i < s.lineCount axis) (unread : s.LineUnread axis i) :
    Reported s (s.deleteLine axis i).sheet (s.deleteLine axis i).calls := by
  rw [sound.wired.deleteLine_of_unread inside unread]
  have changed := sound.changed_deleteCells small inside unread
  refine (changed.reported_reflow (enrolled.deleteCells sound.wired)).congr fun l p watched => ?_
  rw [(sameFrame_reflow _ _).listeners, listeners_deleteCells.1] at watched
  have off : p ∉ s.line axis i := by simpa using (List.mem_filter.mp watched).2
  unfold CellStore.valueOf
  rw [get?_deleteCells sound.wired, if_neg off, Option.map_map]
  apply Option.map_congr
  intro c _
  exact (Cell.value_dropReaders _ c).symm

theorem reported_of_reachable (reachable : s.Reachable) :
    s.recalculate.result = .ok () ∧
      (∀ p, s.recalculate.sheet.cells.valueOf p = s.cells.valueOf p) ∧
      Reported s s.recalculate.sheet s.recalculate.calls ∧
      (s.recalculate.calls = [] ↔ ∀ l p, (l, p) ∈ s.listeners → s.cells.valueOf p ≠ some .nan) ∧
      ∀ axis i o, s.Returns (.insertLine axis i) o ∨ s.Returns (.deleteLine axis i) o →
        o.result = .ok () → Reported s o.sheet o.calls := by
  have sound := reachable.sound
  have enrolled := reachable.enrolled
  have reported := enrolled.reported_recalculate sound.wired sound.acyclic
  have values := sound.valueOf_recalculate
  refine ⟨sound.recalculate.1, values, reported, ?_, ?_⟩
  · rw [← List.map_eq_nil_iff (f := Call.target), List.eq_nil_iff_forall_not_mem, Prod.forall]
    simp only [reported.due, values, (sameFrame_recalculate s).listeners]
    constructor
    · intro silent l p watched holds
      exact silent p l ⟨watched, .nan, .nan, holds, holds, .inr ⟨rfl, rfl⟩⟩
    · rintro none p l ⟨watched, v, w, before, after, due⟩
      cases before.symm.trans after
      rcases due with other | ⟨rfl, -⟩
      · exact other (.inl rfl)
      · exact none l p watched before
  · rintro axis i o (⟨rfl, small⟩ | ⟨rfl, -⟩) ok
    · have inside : i ≤ s.lineCount axis := by
        by_contra outside
        rw [show s.apply (.insertLine axis i) = _ from
          insertLine_of_lt (Nat.lt_of_not_le outside)] at ok
        cases ok
      exact sound.reported_insertLine enrolled reachable.representable (small.of_insertLine inside)
        inside
    · obtain ⟨inside, unread⟩ := sound.unread_of_deleteLine ok
      exact sound.reported_deleteLine enrolled reachable.representable inside unread

/-! Two cells that are watched: `B1` averages what stands in the first column, and `B2` divides zero
by zero. -/

def sampleWatched : Sheet :=
  [.setInput ⟨0, 0⟩ "2", .setInput ⟨0, 1⟩ "4", .setInput ⟨1, 0⟩ "=AVG(A1:A2)",
    .setInput ⟨1, 1⟩ "=0/0", .subscribe ⟨1, 0⟩, .subscribe ⟨1, 1⟩].foldl
      (fun s op => (s.apply op).sheet) (ofSize 2 2)

theorem reachable_sampleWatched : sampleWatched.Reachable := by
  refine .apply (.apply (.apply (.apply (.apply (.apply (.ofSize ?_) _ ?_) _ ?_) _ ?_) _ ?_) _ ?_) _ ?_
  all_goals decide +kernel

/-- The new row counts in the average. -/
theorem reported_of_reachable_sample :
    Reported sampleWatched sampleWatched.recalculate.sheet sampleWatched.recalculate.calls ∧
      Reported sampleWatched (sampleWatched.apply (.insertLine .row 1)).sheet
        (sampleWatched.apply (.insertLine .row 1)).calls ∧
      (sampleWatched.apply (.insertLine .row 1)).calls.map Call.target =
        [(⟨3⟩, ⟨1⟩), (⟨2⟩, ⟨0⟩)] := by
  obtain ⟨-, -, reported, -, changes⟩ := reported_of_reachable reachable_sampleWatched
  refine ⟨reported, changes .row 1 _ (.inl ⟨rfl, ?_⟩) ?_, ?_⟩
  · decide +kernel
  · decide +kernel
  · decide +kernel

/-- So a recalculation is not always silent, although it changes nothing. -/
theorem not_silent_of_nan : ¬ ∀ s : Sheet, s.Reachable → s.recalculate.calls = [] := by
  intro silent
  have calls : sampleWatched.recalculate.calls.map Call.target = [(⟨3⟩, ⟨1⟩)] := by decide +kernel
  rw [silent _ reachable_sampleWatched] at calls
  cases calls

end Sheet
end Spreadsheet
