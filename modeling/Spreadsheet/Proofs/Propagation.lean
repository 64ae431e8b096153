import Spreadsheet.Proofs.Registration

/-! One edit recomputes the edited cell and all that depends on it, once each, and tells the
listeners of each when what it reads is settled. -/
namespace Spreadsheet

/-- Whom a call tells of what. -/
def Call.target (k : Call) : CellId × ListenerId := (k.cell, k.listener)

namespace Sheet
open Relation

variable {s t : Sheet} {x : CellId} {raw : String} {formula : Formula}

/-- A cell before and after an edit of `x`, apart from its value. -/
structure Relinked (s t : Sheet) (x p : CellId) (c d : Cell) : Prop where
  entry : p ≠ x → d.raw = c.raw ∧ d.formula = c.formula
  joined : t.Reads x p → ¬ s.Reads x p → d.subscribers = c.subscribers ++ [.cell x]
  left : s.Reads x p → ¬ t.Reads x p → d.subscribers = c.subscribers.erase (.cell x)
  stayed : (t.Reads x p ↔ s.Reads x p) → d.subscribers = c.subscribers

/-- The cell `x` has a new formula, and the cells of `order` have been evaluated in this order. A
call sees the cells as they are at that moment, and what it may look at has come to rest. -/
structure Propagated (s t : Sheet) (calls : List Call) (x : CellId) (raw : String)
    (formula : Formula) (order : List CellId) : Prop where
  run : ∃ rest, order = x :: rest ∧ t = rest.foldl recompute (s.storeInput x raw formula)
  nodup : order.Nodup
  affected : ∀ c, c ∈ order ↔ ReflTransGen t.Reads c x
  affected_before : ∀ c, c ∈ order ↔ ReflTransGen s.Reads c x
  precedents : ∀ before c behind, order = before ++ c :: behind →
    ∀ p ∈ order, t.Reads c p → p ∈ before
  targets : calls.map Call.target = order.flatMap fun c => (s.listenersOf c).map (c, ·)
  registered : ∀ c, (s.listenersOf c).Pairwise fun k l => k.index < l.index
  once : (calls.map Call.listener).Nodup
  settled : ∀ k ∈ calls, ∀ q, q = k.cell ∨ t.Reads k.cell q → k.seen.get? q = t.cells.get? q
  frame : SameFrame s t
  edited : (t.cells.get? x).map Cell.entry = some (raw, formula)
  cells : ∀ p c, s.cells.get? p = some c → ∃ d, t.cells.get? p = some d ∧ Relinked s t x p c d
  values : ∀ p, p ∉ order → t.cells.valueOf p = s.cells.valueOf p

/-! Calls. -/

theorem Enrolled.callsFor (enrolled : s.Enrolled) (wired : s.Wired) (p : CellId) :
    s.callsFor p = (s.listenersOf p).map (⟨·, p, s.cells⟩) := by
  have listed : ((s.cells.get? p).map Cell.listeners).getD [] = s.listenersOf p := by
    cases found : s.cells.get? p with
    | none => exact (wired.listenersOf_of_get?_eq_none found).symm
    | some c => exact enrolled p c found
  unfold Sheet.callsFor
  rw [listed, ← List.filterMap_eq_map]
  apply List.filterMap_congr
  intro l member
  rw [if_pos (List.any_eq_true.mpr ⟨(l, p), mem_listenersOf.mp member, beq_self_eq_true l⟩)]
  rfl

theorem Enrolled.recompute (enrolled : s.Enrolled) (p : CellId) : (s.recompute p).Enrolled :=
  enrolled.alike (alike_recompute Cell.listeners_recompute s p) (sameFrame_recompute s p).listeners

/-- The listeners of one cell after the other. -/
theorem Enrolled.targets_refresh (enrolled : s.Enrolled) (wired : s.Wired) (order : List CellId) :
    (s.refresh order).2.map Call.target = order.flatMap fun p => (s.listenersOf p).map (p, ·) := by
  induction order generalizing s with
  | nil => rfl
  | cons p rest ih =>
    have step := revalued_recompute s p
    have enrolled' := enrolled.recompute p
    have wired' := wired.revalued step
    have same := listenersOf_congr step.frame.listeners
    show ((s.recompute p).callsFor p ++ ((s.recompute p).refresh rest).2).map Call.target = _
    rw [List.map_append, ih enrolled' wired', enrolled'.callsFor wired', List.flatMap_cons, same,
      List.map_map]
    rfl

theorem mem_callsFor {p : CellId} {k : Call} (member : k ∈ s.callsFor p) :
    k.cell = p ∧ k.seen = s.cells := by
  obtain ⟨l, -, due⟩ := List.mem_filterMap.mp member
  split at due
  · cases due
    exact ⟨rfl, rfl⟩
  · cases due

/-- At a call all but the cells behind the one that is called for have been recomputed. -/
theorem exists_of_mem_refresh {order : List CellId} {k : Call} (member : k ∈ (s.refresh order).2) :
    ∃ before behind u, order = before ++ k.cell :: behind ∧ k.seen = u.cells ∧
      order.foldl recompute s = behind.foldl recompute u := by
  induction order generalizing s with
  | nil => cases member
  | cons p rest ih =>
    rcases List.mem_append.mp member with first | later
    · obtain ⟨rfl, seen⟩ := mem_callsFor first
      exact ⟨[], rest, s.recompute k.cell, rfl, seen, rfl⟩
    · obtain ⟨before, behind, u, rfl, seen, done⟩ := ih later
      exact ⟨p :: before, behind, u, rfl, seen, done⟩

theorem get?_foldl_recompute {order : List CellId} {q : CellId} (missing : q ∉ order) :
    (order.foldl recompute s).cells.get? q = s.cells.get? q := by
  induction order generalizing s with
  | nil => rfl
  | cons p rest ih =>
    obtain ⟨other, behind⟩ := List.ne_and_not_mem_of_not_mem_cons missing
    rw [List.foldl_cons, ih behind, get?_recompute]
    simp [other]

/-- Cells have no listener in common. -/
theorem Wired.nodup_flatMap_listenersOf (wired : s.Wired) {order : List CellId}
    (nodup : order.Nodup) : (order.flatMap s.listenersOf).Nodup := by
  refine List.nodup_flatMap.mpr ⟨fun p _ => wired.nodup_listenersOf p, nodup.imp fun distinct => ?_⟩
  intro l here there
  exact distinct (wired.eq_of_key (mem_listenersOf.mp here) (mem_listenersOf.mp there))

theorem Wired.nodup_listeners_of_targets (wired : s.Wired) {calls : List Call}
    {order : List CellId} (nodup : order.Nodup)
    (targets : calls.map Call.target = order.flatMap fun p => (s.listenersOf p).map (p, ·)) :
    (calls.map Call.listener).Nodup := by
  have split : calls.map Call.listener = order.flatMap s.listenersOf := by
    have all := congrArg (List.map Prod.snd) targets
    rw [List.map_map, List.map_flatMap] at all
    simpa [Function.comp_def, Call.target] using all
  rw [split]
  exact wired.nodup_flatMap_listenersOf nodup

/-! The order of an edit. -/

section edit
variable {a : Address} {order : List CellId}

theorem calls_setInput (prepared : s.prepareInput a raw = .ok (x, formula, order)) :
    (s.setInput a raw).calls = (s.storeInput x raw formula).callsFor x ++
      ((s.storeInput x raw formula).refresh order.tail).2 := by
  unfold setInput
  rw [prepared]

theorem reads_setInput (prepared : s.prepareInput a raw = .ok (x, formula, order))
    (live : (s.cells.get? x).isSome) {c p : CellId} :
    (s.setInput a raw).sheet.Reads c p ↔ if c = x then p ∈ formula.precedents else s.Reads c p := by
  rw [(setInput_of_prepared prepared).2, reads_alike (revalued_foldl_recompute _ _).formulas,
    storeInput_eq_adopt, reads_adopt live]

/-- What a cell of the order reads is recomputed before it, if at all. -/
theorem Sound.mem_before (sound : s.Sound)
    (prepared : s.prepareInput a raw = .ok (x, formula, order)) {before behind : List CellId}
    {c p : CellId} (split : order = before ++ c :: behind) (member : p ∈ order)
    (reads : (s.setInput a raw).sheet.Reads c p) : p ∈ before := by
  obtain ⟨found, -, walked, free⟩ := prepareInput_eq_ok prepared
  rw [reads_setInput prepared (sound.laid.live_of_idAt? found)] at reads
  split at reads
  · exact absurd member (free p reads)
  · exact sound.wired.mem_before_of_reads walked split member reads

/-- A call comes from the run in which only the cells behind are still to be recomputed. -/
theorem exists_of_mem_calls (prepared : s.prepareInput a raw = .ok (x, formula, order)) {k : Call}
    (member : k ∈ (s.setInput a raw).calls) : ∃ before behind u, order = before ++ k.cell :: behind ∧
      k.seen = u.cells ∧ (s.setInput a raw).sheet = behind.foldl recompute u := by
  obtain ⟨-, -, walked, -⟩ := prepareInput_eq_ok prepared
  obtain ⟨rest, rfl⟩ := Graph.topologicalOrder_single (topologicalOrder_of_dependencyOrder walked)
  rw [(setInput_of_prepared prepared).2]
  rw [calls_setInput prepared] at member
  rcases List.mem_append.mp member with first | later
  · obtain ⟨rfl, seen⟩ := mem_callsFor first
    exact ⟨[], rest, _, rfl, seen, rfl⟩
  · obtain ⟨before, behind, u, split, seen, done⟩ := exists_of_mem_refresh later
    exact ⟨x :: before, behind, u, congrArg (x :: ·) split, seen, done⟩

/-! What the edit leaves. -/

theorem subscribers_setInput (prepared : s.prepareInput a raw = .ok (x, formula, order))
    (p : CellId) : ((s.setInput a raw).sheet.cells.get? p).map Cell.subscribers =
      (s.cells.get? p).map fun c =>
        (c.relink x (p ∈ formula.precedents) (p ∈ s.precedents x)).subscribers := by
  rw [(setInput_of_prepared prepared).2, (alike_foldl_recompute (fun _ _ => rfl) _ _).cells,
    storeInput_eq_adopt, get?_adopt, Option.map_map]
  apply Option.map_congr
  intro c _
  simp only [Function.comp_apply]
  split <;> rfl

theorem Wired.relinked (wired : s.Wired)
    (prepared : s.prepareInput a raw = .ok (x, formula, order)) (live : (s.cells.get? x).isSome)
    {p : CellId} {c : Cell} (found : s.cells.get? p = some c) :
    ∃ d, (s.setInput a raw).sheet.cells.get? p = some d ∧
      Relinked s (s.setInput a raw).sheet x p c d := by
  have entry := entry_setInput prepared p
  have subscribers := subscribers_setInput prepared p
  rw [found, Option.map_some] at entry subscribers
  obtain ⟨d, after, entry⟩ := Option.map_eq_some_iff.mp entry
  rw [after, Option.map_some, Option.some.injEq] at subscribers
  have reads : (s.setInput a raw).sheet.Reads x p ↔ p ∈ formula.precedents := by
    rw [reads_setInput prepared live, if_pos rfl]
  have readers := wired.readers p c x found
  refine ⟨d, after, ?_⟩
  constructor
  case entry =>
    intro other
    rw [if_neg other] at entry
    exact Cell.entry_eq.mp entry
  case joined =>
    intro now before
    rw [subscribers, Cell.relink, if_pos (reads.mp now), Cell.attach, if_neg (mt readers.mp before)]
  case left =>
    intro before now
    have before : p ∈ s.precedents x := before
    rw [subscribers, Cell.relink, if_neg (mt reads.mpr now), if_pos before]
    rfl
  case stayed =>
    intro same
    have subscribed (now : p ∈ formula.precedents) : .cell x ∈ c.subscribers :=
      readers.mpr (same.mp (reads.mpr now))
    have still (before : p ∈ s.precedents x) : p ∈ formula.precedents := reads.mp (same.mpr before)
    rw [subscribers, Cell.relink_eq_self subscribed still]

theorem valueOf_setInput (prepared : s.prepareInput a raw = .ok (x, formula, order)) {p : CellId}
    (missing : p ∉ order) : (s.setInput a raw).sheet.cells.valueOf p = s.cells.valueOf p := by
  obtain ⟨-, -, walked, -⟩ := prepareInput_eq_ok prepared
  obtain ⟨rest, rfl⟩ := Graph.topologicalOrder_single (topologicalOrder_of_dependencyOrder walked)
  obtain ⟨other, behind⟩ := List.ne_and_not_mem_of_not_mem_cons missing
  rw [(setInput_of_prepared prepared).2, CellStore.valueOf, List.tail_cons,
    get?_foldl_recompute behind]
  exact valueOf_storeInput other

theorem Sound.targets_setInput (sound : s.Sound) (enrolled : s.Enrolled)
    (prepared : s.prepareInput a raw = .ok (x, formula, order)) :
    (s.setInput a raw).calls.map Call.target =
      order.flatMap fun c => (s.listenersOf c).map (c, ·) := by
  obtain ⟨-, -, walked, -⟩ := prepareInput_eq_ok prepared
  obtain ⟨rest, cons⟩ := Graph.topologicalOrder_single (topologicalOrder_of_dependencyOrder walked)
  obtain ⟨-, wired', -⟩ := sound.storeInput prepared
  have table : (s.storeInput x raw formula).listeners = s.listeners :=
    (sameFrame_adopt s x raw formula _).listeners
  have enrolled' : (s.storeInput x raw formula).Enrolled :=
    enrolled.alike (alike_adopt Cell.listeners_relink (fun _ => rfl) s x) table
  rw [calls_setInput prepared, List.map_append, enrolled'.targets_refresh wired',
    enrolled'.callsFor wired', List.map_map, listenersOf_congr table, cons, List.flatMap_cons]
  rfl

/-- What a called listener sees of the cell and of what that reads stays as it is. -/
theorem Sound.settled_setInput (sound : s.Sound)
    (prepared : s.prepareInput a raw = .ok (x, formula, order)) {k : Call}
    (member : k ∈ (s.setInput a raw).calls) {q : CellId}
    (looks : q = k.cell ∨ (s.setInput a raw).sheet.Reads k.cell q) :
    k.seen.get? q = (s.setInput a raw).sheet.cells.get? q := by
  obtain ⟨-, -, walked, -⟩ := prepareInput_eq_ok prepared
  have nodup := Graph.topologicalOrder_nodup (topologicalOrder_of_dependencyOrder walked)
  obtain ⟨before, behind, u, split, seen, done⟩ := exists_of_mem_calls prepared member
  rw [done, seen, get?_foldl_recompute]
  intro later
  have inside : q ∈ order := by simp [split, later]
  rw [split] at nodup
  obtain ⟨-, nodup, apart⟩ := List.nodup_append.mp nodup
  rcases looks with rfl | reads
  · exact (List.nodup_cons.mp nodup).1 later
  · have earlier := sound.mem_before prepared split inside reads
    exact apart q earlier q (List.mem_cons_of_mem _ later) rfl

theorem Sound.propagated (sound : s.Sound) (enrolled : s.Enrolled) (numbered : s.Numbered)
    (prepared : s.prepareInput a raw = .ok (x, formula, order)) :
    Propagated s (s.setInput a raw).sheet (s.setInput a raw).calls x raw formula order := by
  obtain ⟨found, -, walked, -⟩ := prepareInput_eq_ok prepared
  have live := sound.laid.live_of_idAt? found
  have nodup := Graph.topologicalOrder_nodup (topologicalOrder_of_dependencyOrder walked)
  obtain ⟨rest, cons⟩ := Graph.topologicalOrder_single (topologicalOrder_of_dependencyOrder walked)
  have affected (c : CellId) : c ∈ order ↔ ReflTransGen s.Reads c x := by
    simp [sound.wired.mem_dependencyOrder walked]
  have targets := sound.targets_setInput enrolled prepared
  constructor
  case run => exact ⟨rest, cons, by rw [(setInput_of_prepared prepared).2, cons]; rfl⟩
  case nodup => exact nodup
  case affected =>
    intro c
    refine (affected c).trans (reflTransGen_redirect_iff fun b p other => ?_).symm
    rw [reads_setInput prepared live, if_neg other]
  case affected_before => exact affected
  case precedents => exact fun before c behind split p => sound.mem_before prepared split
  case targets => exact targets
  case registered => exact numbered.listenersOf
  case once => exact sound.wired.nodup_listeners_of_targets nodup targets
  case settled => exact fun k member q looks => sound.settled_setInput prepared member looks
  case frame => exact sameFrame_setInput s a raw
  case edited =>
    obtain ⟨c, here⟩ := Option.isSome_iff_exists.mp live
    rw [entry_setInput prepared, here, Option.map_some, if_pos rfl]
  case cells => exact fun p c found => sound.wired.relinked prepared live found
  case values => exact fun p => valueOf_setInput prepared

end edit

/-- To clear a cell is to type nothing. -/
theorem exists_prepared_of_accepted {op : Operation} {a : Address}
    (typed : op = .setInput a raw ∨ op = .clear a ∧ raw = "")
    (accepted : (s.apply op).result = .ok ()) :
    s.apply op = s.setInput a raw ∧
      ∃ x formula order, s.prepareInput a raw = .ok (x, formula, order) := by
  have same : s.apply op = s.setInput a raw := by
    rcases typed with rfl | ⟨rfl, rfl⟩
    · rfl
    · rfl
  refine ⟨same, ?_⟩
  rw [same] at accepted
  cases prepared : s.prepareInput a raw with
  | error e =>
    rw [setInput_of_error prepared] at accepted
    cases accepted
  | ok result =>
    obtain ⟨x, formula, order⟩ := result
    exact ⟨x, formula, order, rfl⟩

theorem setInput_propagated (reachable : s.Reachable) {op : Operation} {a : Address}
    (typed : op = .setInput a raw ∨ op = .clear a ∧ raw = "") {o : Outcome Unit}
    (returns : s.Returns op o) (accepted : o.result = .ok ()) :
    ∃ x formula order, s.idAt? a = some x ∧ Formula.ofInput s.resolver raw = .ok formula ∧
      Propagated s o.sheet o.calls x raw formula order := by
  obtain ⟨rfl, -⟩ := returns
  obtain ⟨same, x, formula, order, prepared⟩ := exists_prepared_of_accepted typed accepted
  rw [same]
  obtain ⟨found, parsed, -⟩ := prepareInput_eq_ok prepared
  exact ⟨x, formula, order, found, parsed,
    reachable.sound.propagated reachable.enrolled reachable.numbered prepared⟩

/-- `B3` follows `A1`, and its listener is told once. -/
theorem setInput_propagated_sample :
    (∃ x formula order, sample.idAt? ⟨0, 0⟩ = some x ∧
      Formula.ofInput sample.resolver "=A2+1" = .ok formula ∧
      Propagated sample (sample.apply (.setInput ⟨0, 0⟩ "=A2+1")).sheet
        (sample.apply (.setInput ⟨0, 0⟩ "=A2+1")).calls x "=A2+1" formula order) ∧
      (sample.apply (.setInput ⟨0, 0⟩ "=A2+1")).calls.map Call.target = [(⟨3⟩, ⟨0⟩)] := by
  refine ⟨setInput_propagated reachable_sample (.inl rfl) ⟨rfl, ?_⟩ ?_, ?_⟩
  · decide +kernel
  · decide +kernel
  · decide +kernel

end Sheet
end Spreadsheet
