import Spreadsheet.Proofs.Grid
import Spreadsheet.Proofs.Rewiring

/-! Subscriptions are formulas turned around: a cell is told of a change by those that it reads. -/
namespace Spreadsheet.Sheet

variable {s t : Sheet}

/-- The formula of `c` names the cell `p`. -/
def Reads (s : Sheet) (c p : CellId) : Prop := p ∈ s.precedents c

theorem reads_iff {c p : CellId} :
    s.Reads c p ↔ ∃ cell, s.cells.get? c = some cell ∧ p ∈ cell.formula.precedents := by
  unfold Reads precedents
  cases s.cells.get? c with
  | none => simp
  | some cell => simp

/-- No cell reads itself, at first or at second hand. -/
def Acyclic (s : Sheet) : Prop := ∀ c, ¬ Relation.TransGen s.Reads c c

/-- The subscribers of a cell are the cells that read it and the listeners that the table lists
for it, each once; and only live cells are named. -/
structure Wired (s : Sheet) : Prop where
  readers : ∀ p cell c, s.cells.get? p = some cell → (.cell c ∈ cell.subscribers ↔ s.Reads c p)
  watchers : ∀ p cell l, s.cells.get? p = some cell →
    (.listener l ∈ cell.subscribers ↔ (l, p) ∈ s.listeners)
  nodup : ∀ p cell, s.cells.get? p = some cell → cell.subscribers.Nodup
  read_live : ∀ c p, s.Reads c p → (s.cells.get? p).isSome
  watched_live : ∀ l p, (l, p) ∈ s.listeners → (s.cells.get? p).isSome
  numbers : ∀ l p, (l, p) ∈ s.listeners → l.index < s.nextListener
  keys : (s.listeners.map Prod.fst).Nodup

/-! A new formula. -/

section adopt
variable {id : CellId} {raw : String} {formula : Formula} {value : Cell → Value}

theorem isSome_get?_adopt (q : CellId) :
    ((s.adopt id raw formula value).cells.get? q).isSome = (s.cells.get? q).isSome := by
  rw [get?_adopt, Option.isSome_map]

theorem precedents_adopt (live : (s.cells.get? id).isSome) (c : CellId) :
    (s.adopt id raw formula value).precedents c =
      if c = id then formula.precedents else s.precedents c := by
  unfold precedents
  rw [get?_adopt, Option.map_map]
  split
  · rename_i same
    subst same
    obtain ⟨cell, found⟩ := Option.isSome_iff_exists.mp live
    simp [found, Cell.store]
  · rename_i other
    congr 1
    apply Option.map_congr
    intro cell _
    simp only [Function.comp_apply, Cell.formula_relink]

theorem reads_adopt (live : (s.cells.get? id).isSome) {c p : CellId} :
    (s.adopt id raw formula value).Reads c p ↔
      if c = id then p ∈ formula.precedents else s.Reads c p := by
  unfold Reads
  rw [precedents_adopt live]
  split <;> rfl

theorem exists_of_get?_adopt {q : CellId} {d : Cell}
    (h : (s.adopt id raw formula value).cells.get? q = some d) :
    ∃ c, s.cells.get? q = some c ∧ d.subscribers =
      (c.relink id (q ∈ formula.precedents) (q ∈ s.precedents id)).subscribers := by
  rw [get?_adopt] at h
  obtain ⟨c, found, rfl⟩ := Option.map_eq_some_iff.mp h
  refine ⟨c, found, ?_⟩
  simp only
  split <;> rfl

theorem Wired.adopt (wired : s.Wired) (live : (s.cells.get? id).isSome)
    (reads : ∀ p ∈ formula.precedents, (s.cells.get? p).isSome) :
    (s.adopt id raw formula value).Wired := by
  have frame := sameFrame_adopt s id raw formula value
  have subscribed {q : CellId} {d : Cell} (h : (s.adopt id raw formula value).cells.get? q = some d)
      (t : Subscriber) : ∃ c, s.cells.get? q = some c ∧ d.subscribers.Nodup ∧ (t ∈ d.subscribers ↔
        if t = .cell id then q ∈ formula.precedents else t ∈ c.subscribers) := by
    obtain ⟨c, found, subscribers⟩ := exists_of_get?_adopt h
    have nodup := wired.nodup q c found
    have before : .cell id ∈ c.subscribers ↔ q ∈ s.precedents id := wired.readers q c id found
    rw [subscribers]
    exact ⟨c, found, Cell.nodup_relink nodup, Cell.mem_relink nodup before⟩
  constructor
  case readers =>
    intro p d c h
    obtain ⟨old, found, -, mem⟩ := subscribed h (.cell c)
    rw [mem, reads_adopt live, wired.readers p old c found]
    simp only [Subscriber.cell.injEq]
  case watchers =>
    intro p d l h
    obtain ⟨old, found, -, mem⟩ := subscribed h (.listener l)
    rw [mem, if_neg (by simp), frame.listeners, wired.watchers p old l found]
  case nodup =>
    intro p d h
    obtain ⟨_, -, nodup, -⟩ := subscribed h (.cell id)
    exact nodup
  case read_live =>
    intro c p h
    rw [isSome_get?_adopt]
    rw [reads_adopt live] at h
    split at h
    · exact reads p h
    · exact wired.read_live c p h
  case watched_live =>
    intro l p h
    rw [isSome_get?_adopt]
    rw [frame.listeners] at h
    exact wired.watched_live l p h
  case numbers =>
    rw [frame.listeners, frame.nextListener]
    exact wired.numbers
  case keys =>
    rw [frame.listeners]
    exact wired.keys

end adopt

/-! Listeners come and go. -/

theorem precedents_modifyCell {id : CellId} {f : Cell → Cell}
    (keeps : ∀ c, (f c).formula = c.formula) (c : CellId) :
    (s.modifyCell id f).precedents c = s.precedents c := by
  unfold precedents
  rw [get?_modifyCell, Option.map_map]
  congr 1
  apply Option.map_congr
  intro cell _
  simp only [Function.comp_apply]
  split
  · rw [keeps]
  · rfl

/-- A change of a cell's listeners, and of the table of listeners with it. -/
theorem Wired.relisten (wired : s.Wired) {id : CellId} {f : Cell → Cell}
    {listeners : List (ListenerId × CellId)} {nextListener : Nat}
    (keeps : ∀ c, (f c).formula = c.formula)
    (nodup : ∀ c, c.subscribers.Nodup → (f c).subscribers.Nodup)
    (cells : ∀ c i, c.subscribers.Nodup → (.cell i ∈ (f c).subscribers ↔ .cell i ∈ c.subscribers))
    (table : ∀ p c l, s.cells.get? p = some c →
      (.listener l ∈ (if p = id then f c else c).subscribers ↔ (l, p) ∈ listeners))
    (live : ∀ l p, (l, p) ∈ listeners → (s.cells.get? p).isSome)
    (numbers : ∀ l p, (l, p) ∈ listeners → l.index < nextListener)
    (keys : (listeners.map Prod.fst).Nodup) :
    Wired { s.modifyCell id f with listeners := listeners, nextListener := nextListener } := by
  have found {p : CellId} {d : Cell} (h : (s.modifyCell id f).cells.get? p = some d) :
      ∃ c, s.cells.get? p = some c ∧ d = if p = id then f c else c := by
    rw [get?_modifyCell] at h
    obtain ⟨c, found, rfl⟩ := Option.map_eq_some_iff.mp h
    exact ⟨c, found, rfl⟩
  have reads (c p : CellId) : Reads { s.modifyCell id f with
      listeners := listeners, nextListener := nextListener } c p ↔ s.Reads c p := by
    have same : (s.modifyCell id f).precedents c = s.precedents c := precedents_modifyCell keeps c
    unfold Reads
    rw [← same]
    rfl
  have isSome (p : CellId) : ((s.modifyCell id f).cells.get? p).isSome = (s.cells.get? p).isSome := by
    rw [get?_modifyCell, Option.isSome_map]
  constructor
  case readers =>
    intro p d c h
    obtain ⟨old, before, rfl⟩ := found h
    rw [reads, ← wired.readers p old c before]
    split
    · exact cells old c (wired.nodup p old before)
    · rfl
  case watchers =>
    intro p d l h
    obtain ⟨old, before, rfl⟩ := found h
    exact table p old l before
  case nodup =>
    intro p d h
    obtain ⟨old, before, rfl⟩ := found h
    split
    · exact nodup old (wired.nodup p old before)
    · exact wired.nodup p old before
  case read_live =>
    intro c p h
    exact (isSome p).trans (wired.read_live c p ((reads c p).mp h))
  case watched_live =>
    intro l p h
    exact (isSome p).trans (live l p h)
  case numbers => exact numbers
  case keys => exact keys

theorem Wired.eq_of_key (wired : s.Wired) {l : ListenerId} {p q : CellId}
    (hp : (l, p) ∈ s.listeners) (hq : (l, q) ∈ s.listeners) : p = q :=
  congrArg Prod.snd (List.inj_on_of_nodup_map wired.keys hp hq rfl)

theorem Wired.subscribe (wired : s.Wired) (laid : s.Laid) (a : Address) :
    (s.subscribe a).sheet.Wired := by
  unfold Sheet.subscribe
  cases found : s.idAt a with
  | error e => exact wired
  | ok id =>
    have new : ∀ p, (⟨s.nextListener⟩, p) ∉ s.listeners := by
      intro p h
      exact absurd (wired.numbers _ p h) (Nat.lt_irrefl _)
    show Wired { s.modifyCell id (·.attach (.listener ⟨s.nextListener⟩)) with
      listeners := s.listeners ++ [(⟨s.nextListener⟩, id)], nextListener := s.nextListener + 1 }
    refine wired.relisten (Cell.formula_attach _)
      (fun c => Cell.nodup_attach) (fun c i _ => by simp [Cell.mem_attach]) ?_ ?_ ?_ ?_
    · intro p c l at_p
      rw [List.mem_append, List.mem_singleton, Prod.mk.injEq, ← wired.watchers p c l at_p]
      split
      · rename_i same
        simp [Cell.mem_attach, same, or_comm]
      · rename_i other
        simp [other]
    · intro l p h
      rcases List.mem_append.mp h with h | h
      · exact wired.watched_live l p h
      · cases List.mem_singleton.mp h
        exact laid.live_of_idAt? (idAt_eq_ok.mp found)
    · intro l p h
      rcases List.mem_append.mp h with h | h
      · exact Nat.lt_succ_of_lt (wired.numbers l p h)
      · cases List.mem_singleton.mp h
        exact Nat.lt_succ_self _
    · rw [List.map_append, List.nodup_append]
      refine ⟨wired.keys, List.nodup_singleton _, ?_⟩
      intro l member l' newest same
      obtain ⟨⟨k, p⟩, listed, key⟩ := List.mem_map.mp member
      rw [same, List.mem_singleton.mp newest] at key
      cases key
      exact new p listed

theorem Wired.unsubscribe (wired : s.Wired) (l : ListenerId) : (s.unsubscribe l).sheet.Wired := by
  unfold Sheet.unsubscribe
  cases found : s.listeners.find? (·.1 == l) with
  | none => exact wired
  | some entry =>
    obtain ⟨l', id⟩ := entry
    have listed := List.mem_of_find?_eq_some found
    have key : l' = l := by simpa using List.find?_some found
    subst key
    have remaining {l p} : (l, p) ∈ s.listeners.filter (·.1 != l') ↔ (l, p) ∈ s.listeners ∧ l ≠ l' := by
      simp
    show Wired { s.modifyCell id (·.detach (.listener l')) with
      listeners := s.listeners.filter (·.1 != l'), nextListener := s.nextListener }
    refine wired.relisten (fun c => rfl)
      (fun c nodup => nodup.erase _) (fun c i nodup => by simp [Cell.mem_detach nodup]) ?_ ?_ ?_ ?_
    · intro p c l at_p
      rw [remaining, ← wired.watchers p c l at_p]
      split
      · simp [Cell.mem_detach (wired.nodup p c at_p), and_comm]
      · rename_i other
        refine ⟨fun h => ⟨h, ?_⟩, And.left⟩
        rintro rfl
        exact other (wired.eq_of_key ((wired.watchers p c l at_p).mp h) listed)
    · intro l p h
      exact wired.watched_live l p (remaining.mp h).1
    · intro l p h
      exact wired.numbers l p (remaining.mp h).1
    · exact wired.keys.sublist (List.filter_sublist.map _)

/-! What stays the same where only values change, or only subscriptions. -/

/-- The same cells in the same places, as far as `view` shows. -/
structure Alike {α : Type} (view : Cell → α) (s t : Sheet) : Prop where
  columns : t.columns = s.columns
  height : t.height = s.height
  cells : ∀ id, (t.cells.get? id).map view = (s.cells.get? id).map view

section alike
variable {α β : Type} {view : Cell → α}

theorem Alike.refl (s : Sheet) : Alike view s s := ⟨rfl, rfl, fun _ => rfl⟩

theorem Alike.trans {u : Sheet} (h : Alike view s t) (h' : Alike view t u) : Alike view s u :=
  ⟨h'.columns.trans h.columns, h'.height.trans h.height, fun id => (h'.cells id).trans (h.cells id)⟩

theorem Alike.comp {f : α → β} (h : Alike view s t) : Alike (f ∘ view) s t := by
  refine ⟨h.columns, h.height, fun id => ?_⟩
  rw [← Option.map_map, ← Option.map_map, h.cells]

theorem Alike.isSome_get? (h : Alike view s t) (id : CellId) :
    (t.cells.get? id).isSome = (s.cells.get? id).isSome := by
  rw [← Option.isSome_map (f := view), h.cells, Option.isSome_map]

theorem Alike.exists_get? (h : Alike view s t) {id : CellId} {d : Cell}
    (found : t.cells.get? id = some d) : ∃ c, s.cells.get? id = some c ∧ view d = view c := by
  have same := h.cells id
  rw [found, Option.map_some] at same
  obtain ⟨c, before, view⟩ := Option.map_eq_some_iff.mp same.symm
  exact ⟨c, before, view.symm⟩

theorem Laid.alike (laid : s.Laid) (h : Alike view s t) : t.Laid :=
  laid.congr h.columns h.height h.isSome_get?

theorem reads_alike (h : Alike Cell.formula s t) : t.Reads = s.Reads := by
  have same (c : CellId) : t.precedents c = s.precedents c := by
    have formulas := congrArg (Option.map Formula.precedents) (h.cells c)
    rw [Option.map_map, Option.map_map] at formulas
    exact congrArg (Option.getD · []) formulas
  funext c p
  unfold Reads
  rw [same]

theorem Acyclic.alike (acyclic : s.Acyclic) (h : Alike Cell.formula s t) : t.Acyclic := by
  unfold Acyclic
  rw [reads_alike h]
  exact acyclic

end alike

/-- The same but for the values of cells. -/
structure Revalued (s t : Sheet) : Prop where
  frame : SameFrame s t
  cells : ∀ id, (t.cells.get? id).map (fun c => (c.formula, c.subscribers)) =
    (s.cells.get? id).map (fun c => (c.formula, c.subscribers))

theorem Revalued.refl (s : Sheet) : Revalued s s := ⟨.refl s, fun _ => rfl⟩

theorem Revalued.trans {u : Sheet} (h : Revalued s t) (h' : Revalued t u) : Revalued s u :=
  ⟨h.frame.trans h'.frame, fun id => (h'.cells id).trans (h.cells id)⟩

theorem Revalued.alike (h : Revalued s t) : Alike (fun c => (c.formula, c.subscribers)) s t :=
  ⟨h.frame.columns, h.frame.height, h.cells⟩

theorem Revalued.formulas (h : Revalued s t) : Alike Cell.formula s t :=
  h.alike.comp (f := Prod.fst)

theorem Wired.revalued (wired : s.Wired) (h : Revalued s t) : t.Wired := by
  have reads := reads_alike h.formulas
  have subscribers {p : CellId} {d : Cell} (found : t.cells.get? p = some d) :
      ∃ c, s.cells.get? p = some c ∧ d.subscribers = c.subscribers := by
    obtain ⟨c, before, same⟩ := h.alike.exists_get? found
    exact ⟨c, before, congrArg Prod.snd same⟩
  constructor
  case readers =>
    intro p d c found
    obtain ⟨old, before, same⟩ := subscribers found
    rw [same, reads, wired.readers p old c before]
  case watchers =>
    intro p d l found
    obtain ⟨old, before, same⟩ := subscribers found
    rw [same, h.frame.listeners, wired.watchers p old l before]
  case nodup =>
    intro p d found
    obtain ⟨old, before, same⟩ := subscribers found
    rw [same]
    exact wired.nodup p old before
  case read_live =>
    intro c p read
    rw [h.alike.isSome_get?]
    rw [reads] at read
    exact wired.read_live c p read
  case watched_live =>
    intro l p listed
    rw [h.alike.isSome_get?]
    rw [h.frame.listeners] at listed
    exact wired.watched_live l p listed
  case numbers =>
    rw [h.frame.listeners, h.frame.nextListener]
    exact wired.numbers
  case keys =>
    rw [h.frame.listeners]
    exact wired.keys

end Spreadsheet.Sheet
