import Spreadsheet.Proofs.Grid
import Spreadsheet.Proofs.Precedents
import Spreadsheet.Sheet.Edit
import Spreadsheet.Sheet.Shape

/-! What the steps that change subscriptions leave in each cell. -/
namespace Spreadsheet

namespace Cell

@[simp] theorem raw_attach (s : Subscriber) (c : Cell) : (c.attach s).raw = c.raw := by
  unfold attach
  split <;> rfl

@[simp] theorem formula_attach (s : Subscriber) (c : Cell) : (c.attach s).formula = c.formula := by
  unfold attach
  split <;> rfl

@[simp] theorem value_attach (s : Subscriber) (c : Cell) : (c.attach s).value = c.value := by
  unfold attach
  split <;> rfl

/-- Subscribe and unsubscribe `reader`, where the cell is among those it reads now or read before. -/
def relink (reader : CellId) (reads readBefore : Prop) [Decidable reads] [Decidable readBefore]
    (c : Cell) : Cell :=
  if reads then c.attach (.cell reader)
  else if readBefore then c.detach (.cell reader)
  else c

section relink
variable (reader : CellId) (reads readBefore : Prop) [Decidable reads] [Decidable readBefore]
  (c : Cell)

@[simp] theorem raw_relink : (c.relink reader reads readBefore).raw = c.raw := by
  unfold relink
  split
  · exact raw_attach _ c
  · split <;> rfl

@[simp] theorem formula_relink : (c.relink reader reads readBefore).formula = c.formula := by
  unfold relink
  split
  · exact formula_attach _ c
  · split <;> rfl

@[simp] theorem value_relink : (c.relink reader reads readBefore).value = c.value := by
  unfold relink
  split
  · exact value_attach _ c
  · split <;> rfl

variable {reader reads readBefore c}

theorem nodup_relink (nodup : c.subscribers.Nodup) :
    (c.relink reader reads readBefore).subscribers.Nodup := by
  unfold relink
  split
  · exact nodup_attach nodup
  · split
    · exact nodup.erase _
    · exact nodup

theorem mem_relink (nodup : c.subscribers.Nodup)
    (before : .cell reader ∈ c.subscribers ↔ readBefore) {t : Subscriber} :
    t ∈ (c.relink reader reads readBefore).subscribers ↔
      if t = .cell reader then reads else t ∈ c.subscribers := by
  unfold relink
  split
  · rw [mem_attach]
    split <;> simp_all
  · split
    · rw [mem_detach nodup]
      split <;> simp_all
    · split <;> simp_all

/-- Nothing is to be done where the subscriptions are in order. -/
theorem relink_eq_self (subscribed : reads → .cell reader ∈ c.subscribers)
    (still : readBefore → reads) : c.relink reader reads readBefore = c := by
  unfold relink
  split
  · rename_i read
    exact if_pos (subscribed read)
  · rename_i unread
    exact if_neg (unread ∘ still)

end relink

/-- Without the subscriptions of some cells. -/
def dropReaders (gone : List CellId) (c : Cell) : Cell :=
  gone.foldl (fun c id => c.detach (.cell id)) c

@[simp] theorem raw_dropReaders (gone : List CellId) (c : Cell) :
    (c.dropReaders gone).raw = c.raw := by
  induction gone generalizing c with
  | nil => rfl
  | cons id gone ih => exact ih (c.detach (.cell id))

@[simp] theorem formula_dropReaders (gone : List CellId) (c : Cell) :
    (c.dropReaders gone).formula = c.formula := by
  induction gone generalizing c with
  | nil => rfl
  | cons id gone ih => exact ih (c.detach (.cell id))

@[simp] theorem value_dropReaders (gone : List CellId) (c : Cell) :
    (c.dropReaders gone).value = c.value := by
  induction gone generalizing c with
  | nil => rfl
  | cons id gone ih => exact ih (c.detach (.cell id))

theorem subscribers_dropReaders {gone : List CellId} {c : Cell} (nodup : c.subscribers.Nodup) :
    (c.dropReaders gone).subscribers = c.subscribers.filter fun t => ∀ id ∈ gone, t ≠ .cell id := by
  induction gone generalizing c with
  | nil => simp [dropReaders]
  | cons id gone ih =>
    show ((c.detach (.cell id)).dropReaders gone).subscribers = _
    have first : (c.detach (.cell id)).subscribers = c.subscribers.filter (· != .cell id) :=
      nodup.erase_eq_filter _
    rw [ih (nodup.erase _), first, List.filter_filter]
    apply List.filter_congr
    intro t _
    simp only [List.forall_mem_cons, Bool.decide_and, Bool.and_comm, bne, beq_eq_decide, decide_not]

theorem nodup_dropReaders {gone : List CellId} {c : Cell} (nodup : c.subscribers.Nodup) :
    (c.dropReaders gone).subscribers.Nodup := by
  induction gone generalizing c with
  | nil => exact nodup
  | cons id gone ih => exact ih (nodup.erase _)

theorem mem_dropReaders {gone : List CellId} {c : Cell} (nodup : c.subscribers.Nodup)
    {t : Subscriber} : t ∈ (c.dropReaders gone).subscribers ↔
      t ∈ c.subscribers ∧ ∀ id ∈ gone, t ≠ .cell id := by
  induction gone generalizing c with
  | nil => simp [dropReaders]
  | cons id gone ih =>
    have rest := ih (c := c.detach (.cell id)) (nodup.erase _)
    rw [mem_detach nodup] at rest
    rw [List.forall_mem_cons, ← and_assoc, ← and_comm (a := t ≠ .cell id)]
    exact rest

end Cell

namespace Sheet

/-- All but the cells themselves. -/
structure SameFrame (s t : Sheet) : Prop where
  columns : t.columns = s.columns
  height : t.height = s.height
  listeners : t.listeners = s.listeners
  nextListener : t.nextListener = s.nextListener

theorem SameFrame.refl (s : Sheet) : SameFrame s s := ⟨rfl, rfl, rfl, rfl⟩

theorem SameFrame.symm {s t : Sheet} (h : SameFrame s t) : SameFrame t s :=
  ⟨h.columns.symm, h.height.symm, h.listeners.symm, h.nextListener.symm⟩

theorem SameFrame.trans {s t u : Sheet} (h : SameFrame s t) (h' : SameFrame t u) :
    SameFrame s u :=
  ⟨h'.columns.trans h.columns, h'.height.trans h.height, h'.listeners.trans h.listeners,
    h'.nextListener.trans h.nextListener⟩

theorem SameFrame.foldl {α : Type} {f : Sheet → α → Sheet} (step : ∀ s a, SameFrame s (f s a))
    (as : List α) (s : Sheet) : SameFrame s (as.foldl f s) := by
  induction as generalizing s with
  | nil => exact .refl s
  | cons a as ih => exact (step s a).trans (ih _)

theorem sameFrame_modifyCell (s : Sheet) (id : CellId) (f : Cell → Cell) :
    SameFrame s (s.modifyCell id f) := ⟨rfl, rfl, rfl, rfl⟩

/-- The cells that a cell reads; a cell that is not there reads nothing. -/
def precedents (s : Sheet) (id : CellId) : List CellId :=
  ((s.cells.get? id).map (·.formula.precedents)).getD []

theorem nodup_precedents (s : Sheet) (id : CellId) : (s.precedents id).Nodup := by
  unfold precedents
  cases s.cells.get? id with
  | none => exact List.nodup_nil
  | some c => exact c.formula.nodup_precedents

theorem get?_modifyCell (s : Sheet) (id q : CellId) (f : Cell → Cell) :
    (s.modifyCell id f).cells.get? q =
      (s.cells.get? q).map fun c => if q = id then f c else c := by
  unfold modifyCell
  rw [CellStore.get?_modify]
  by_cases same : q = id
  · simp [same]
  · rw [if_neg (Ne.symm same)]
    simp [same]

theorem get?_foldl_modifyCell (f : Cell → Cell) {ids : List CellId} (nodup : ids.Nodup) (s : Sheet)
    (q : CellId) : (ids.foldl (fun s p => s.modifyCell p f) s).cells.get? q =
      (s.cells.get? q).map fun c => if q ∈ ids then f c else c := by
  induction ids generalizing s with
  | nil => simp
  | cons id ids ih =>
    rw [List.nodup_cons] at nodup
    rw [List.foldl_cons, ih nodup.2, get?_modifyCell, Option.map_map]
    apply Option.map_congr
    intro c _
    by_cases same : q = id
    · subst same
      simp [nodup.1]
    · simp [same]

theorem get?_rewire (s : Sheet) (id q : CellId) {ps : List CellId} (nodup : ps.Nodup) :
    (s.rewire id ps).cells.get? q =
      (s.cells.get? q).map (Cell.relink id (q ∈ ps) (q ∈ s.precedents id)) := by
  have stale : ((s.precedents id).filter (· ∉ ps)).Nodup :=
    (s.nodup_precedents id).sublist List.filter_sublist
  show (ps.foldl (fun s p => s.modifyCell p (·.attach (.cell id)))
    (((s.precedents id).filter (· ∉ ps)).foldl
      (fun s p => s.modifyCell p (·.detach (.cell id))) s)).cells.get? q = _
  rw [get?_foldl_modifyCell _ nodup, get?_foldl_modifyCell _ stale, Option.map_map]
  apply Option.map_congr
  intro c _
  by_cases new : q ∈ ps
  · simp [Cell.relink, new]
  · by_cases old : q ∈ s.precedents id
    · simp [Cell.relink, new, old]
    · simp [Cell.relink, new, old]

theorem sameFrame_rewire (s : Sheet) (id : CellId) (ps : List CellId) :
    SameFrame s (s.rewire id ps) :=
  (SameFrame.foldl (fun _ _ => sameFrame_modifyCell _ _ _) _ _).trans
    (SameFrame.foldl (fun _ _ => sameFrame_modifyCell _ _ _) _ _)

/-- Give a cell a new formula under new subscriptions. -/
def adopt (s : Sheet) (id : CellId) (raw : String) (formula : Formula) (value : Cell → Value) :
    Sheet :=
  (s.rewire id formula.precedents).modifyCell id fun c => c.store raw formula (value c)

theorem storeInput_eq_adopt (s : Sheet) (id : CellId) (raw : String) (formula : Formula) :
    s.storeInput id raw formula = s.adopt id raw formula fun _ =>
      formula.evaluate (s.rewire id formula.precedents).cells.valueOf := rfl

theorem sameFrame_adopt (s : Sheet) (id : CellId) (raw : String) (formula : Formula)
    (value : Cell → Value) : SameFrame s (s.adopt id raw formula value) :=
  (sameFrame_rewire s id _).trans (sameFrame_modifyCell _ _ _)

theorem get?_adopt (s : Sheet) (id q : CellId) (raw : String) (formula : Formula)
    (value : Cell → Value) : (s.adopt id raw formula value).cells.get? q =
      (s.cells.get? q).map fun c =>
        let d := c.relink id (q ∈ formula.precedents) (q ∈ s.precedents id)
        if q = id then d.store raw formula (value d) else d := by
  unfold adopt
  rw [get?_modifyCell, get?_rewire s id q formula.nodup_precedents, Option.map_map]
  rfl

theorem valueOf_rewire (s : Sheet) (id : CellId) {ps : List CellId} (nodup : ps.Nodup) :
    (s.rewire id ps).cells.valueOf = s.cells.valueOf := by
  funext q
  unfold CellStore.valueOf
  rw [get?_rewire s id q nodup, Option.map_map]
  apply Option.map_congr
  intro c _
  exact Cell.value_relink id _ _ c

end Sheet
end Spreadsheet
