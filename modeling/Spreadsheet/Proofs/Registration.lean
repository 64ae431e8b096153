import Spreadsheet.Proofs.CellText

/-! Listeners stay with their cell, in the order in which they began to watch it. -/
namespace Spreadsheet

namespace Cell

theorem listeners_attach (id : CellId) (c : Cell) : (c.attach (.cell id)).listeners = c.listeners := by
  unfold attach
  split
  · rfl
  · simp [listeners]

theorem listeners_detach (id : CellId) (c : Cell) : (c.detach (.cell id)).listeners = c.listeners := by
  unfold listeners detach
  induction c.subscribers with
  | nil => rfl
  | cons first others ih =>
    rw [List.erase_cons]
    split
    · rename_i same
      rw [beq_iff_eq.mp same]
      rfl
    · rw [List.filterMap_cons, List.filterMap_cons, ih]

theorem listeners_attach_listener {l : ListenerId} {c : Cell} (new : .listener l ∉ c.subscribers) :
    (c.attach (.listener l)).listeners = c.listeners ++ [l] := by
  unfold attach
  rw [if_neg new]
  simp [listeners]

theorem listeners_detach_listener (l : ListenerId) (c : Cell) :
    (c.detach (.listener l)).listeners = c.listeners.erase l := by
  unfold listeners detach
  induction c.subscribers with
  | nil => rfl
  | cons first others ih =>
    rw [List.erase_cons]
    cases first with
    | cell id => simpa using ih
    | listener l' =>
      rw [List.filterMap_cons, List.erase_cons]
      by_cases same : l' = l
      · simp [same]
      · simpa [same] using ih

theorem listeners_relink (reader : CellId) (reads readBefore : Prop) [Decidable reads]
    [Decidable readBefore] (c : Cell) : (c.relink reader reads readBefore).listeners = c.listeners := by
  unfold relink
  split
  · exact listeners_attach reader c
  · split
    · exact listeners_detach reader c
    · rfl

theorem listeners_dropReaders (gone : List CellId) (c : Cell) :
    (c.dropReaders gone).listeners = c.listeners := by
  induction gone generalizing c with
  | nil => rfl
  | cons id gone ih => exact (ih (c.detach (.cell id))).trans (listeners_detach id c)

theorem listeners_recompute (c : Cell) (values : CellId → Option Value) :
    (c.recompute values).listeners = c.listeners := rfl

end Cell

namespace Sheet

variable {s t : Sheet} {axis : Axis} {i : Nat}

/-! A new formula keeps what neither subscriptions nor the formula tell, such as the listeners. -/

section adopt
variable {α : Type} {view : Cell → α}
  (linked : ∀ id (reads readBefore : Prop) [Decidable reads] [Decidable readBefore] (c : Cell),
    view (c.relink id reads readBefore) = view c)
include linked

theorem alike_adopt {raw : String} {formula : Formula} {value : Cell → Value}
    (stored : ∀ c, view (c.store raw formula (value c)) = view c) (s : Sheet) (id : CellId) :
    Alike view s (s.adopt id raw formula value) where
  columns := (sameFrame_adopt s id raw formula value).columns
  height := (sameFrame_adopt s id raw formula value).height
  cells := by
    intro q
    rw [get?_adopt, Option.map_map]
    apply Option.map_congr
    intro c _
    simp only [Function.comp_apply]
    split
    · exact (stored _).trans (linked id _ _ c)
    · exact linked id _ _ c

theorem alike_restate (stored : ∀ raw formula c, view (c.store raw formula c.value) = view c)
    (new : List (CellId × String × Formula)) (s : Sheet) : Alike view s (s.restate new) := by
  induction new generalizing s with
  | nil => exact .refl s
  | cons e new ih => exact (alike_adopt linked (stored e.2.1 e.2.2) s e.1).trans (ih _)

end adopt

theorem alike_reflow (s : Sheet) (before : CellId → Option Address) :
    Alike Cell.listeners s (s.reflow before).sheet := by
  rcases s.reflow_cases before with same | ⟨new, same⟩
  · rw [same]
    exact .refl s
  · rw [same]
    exact (alike_restate Cell.listeners_relink (fun _ _ _ => rfl) new s).trans
      (alike_recalculate Cell.listeners_recompute _)

/-! The table of listeners lists those of each cell in the same order. -/

/-- Those who watch a cell, oldest first. -/
def listenersOf (s : Sheet) (p : CellId) : List ListenerId :=
  (s.listeners.filter (·.2 = p)).map Prod.fst

theorem mem_listenersOf {p : CellId} {l : ListenerId} :
    l ∈ s.listenersOf p ↔ (l, p) ∈ s.listeners := by
  simp [listenersOf]

theorem listenersOf_congr (table : t.listeners = s.listeners) : t.listenersOf = s.listenersOf := by
  funext p
  unfold listenersOf
  rw [table]

theorem Wired.nodup_listenersOf (wired : s.Wired) (p : CellId) : (s.listenersOf p).Nodup :=
  wired.keys.sublist (List.filter_sublist.map _)

theorem Wired.listenersOf_of_get?_eq_none (wired : s.Wired) {p : CellId}
    (none : s.cells.get? p = none) : s.listenersOf p = [] := by
  refine List.eq_nil_iff_forall_not_mem.mpr fun l member => ?_
  simpa [none] using wired.watched_live l p (mem_listenersOf.mp member)

/-- Each cell has its listeners in the order of the table. -/
def Enrolled (s : Sheet) : Prop :=
  ∀ p c, s.cells.get? p = some c → c.listeners = s.listenersOf p

theorem Enrolled.alike (enrolled : s.Enrolled) (h : Alike Cell.listeners s t)
    (table : t.listeners = s.listeners) : t.Enrolled := by
  intro p d found
  obtain ⟨c, before, same⟩ := h.exists_get? found
  rw [same, listenersOf_congr table]
  exact enrolled p c before

theorem enrolled_ofSize (width height : Nat) : (ofSize width height).Enrolled := by
  intro p c found
  rw [empty_of_get?_ofSize found]
  rfl

theorem Enrolled.setInput (enrolled : s.Enrolled) (a : Address) (raw : String) :
    (s.setInput a raw).sheet.Enrolled := by
  rcases s.setInput_cases a raw with same | ⟨id, formula, order, -, same⟩
  · rw [same]
    exact enrolled
  · refine enrolled.alike ?_ (sameFrame_setInput s a raw).listeners
    rw [same]
    exact (alike_adopt Cell.listeners_relink (fun _ => rfl) s id).trans
      (alike_foldl_recompute Cell.listeners_recompute _ _)

/-- A change of one cell's listeners, and of the table with it. -/
theorem Enrolled.relisten (enrolled : s.Enrolled) {id : CellId} {f : Cell → Cell}
    {listeners : List (ListenerId × CellId)} {nextListener : Nat}
    (table : ∀ p c, s.cells.get? p = some c → c.listeners = s.listenersOf p →
      (if p = id then f c else c).listeners = (listeners.filter (·.2 = p)).map Prod.fst) :
    Enrolled { s.modifyCell id f with listeners := listeners, nextListener := nextListener } := by
  intro p d found
  obtain ⟨c, before, rfl⟩ := Option.map_eq_some_iff.mp ((get?_modifyCell s id p f).symm.trans found)
  exact table p c before (enrolled p c before)

theorem Enrolled.subscribe (enrolled : s.Enrolled) (wired : s.Wired) (a : Address) :
    (s.subscribe a).sheet.Enrolled := by
  unfold Sheet.subscribe
  split
  · exact enrolled
  · refine enrolled.relisten fun p c before listed => ?_
    have new : .listener ⟨s.nextListener⟩ ∉ c.subscribers := by
      rw [wired.watchers p c _ before]
      exact fun listed => absurd (wired.numbers _ p listed) (Nat.lt_irrefl _)
    split
    · rename_i same
      rw [Cell.listeners_attach_listener new, listed]
      simp [listenersOf, modifyCell, same]
    · rename_i other
      rw [listed]
      simp [listenersOf, modifyCell, Ne.symm other]

theorem Enrolled.unsubscribe (enrolled : s.Enrolled) (wired : s.Wired) (l : ListenerId) :
    (s.unsubscribe l).sheet.Enrolled := by
  unfold Sheet.unsubscribe
  split
  · exact enrolled
  · rename_i l' id found
    have key : l' = l := by simpa using List.find?_some found
    subst key
    have watched := List.mem_of_find?_eq_some found
    refine enrolled.relisten fun p c _ listed => ?_
    have remaining : ((s.listeners.filter (·.1 != l')).filter (·.2 = p)).map Prod.fst =
        (s.listenersOf p).filter (· != l') := by
      simp [listenersOf, List.filter_map, List.filter_filter, Function.comp_def, Bool.and_comm]
    refine Eq.trans ?_ remaining.symm
    split
    · rw [Cell.listeners_detach_listener, listed, (wired.nodup_listenersOf p).erase_eq_filter]
    · rename_i other
      rw [listed, eq_comm, List.filter_eq_self]
      intro k watches
      have distinct : k ≠ l' := by
        rintro rfl
        exact other (wired.eq_of_key (mem_listenersOf.mp watches) watched)
      exact bne_iff_ne.mpr distinct

theorem Enrolled.insertCells (enrolled : s.Enrolled) (wired : s.Wired) :
    (s.insertCells axis i).Enrolled := by
  intro p c found
  rw [listenersOf_congr listeners_insertCells.1]
  rw [cells_insertCells] at found
  rcases CellStore.exists_of_get?_allocate found with old | ⟨rfl, none, -⟩
  · exact enrolled p c old
  · exact (wired.listenersOf_of_get?_eq_none none).symm

theorem Enrolled.deleteCells (enrolled : s.Enrolled) (wired : s.Wired) :
    (s.deleteCells axis i).Enrolled := by
  intro p d found
  rw [get?_deleteCells wired] at found
  split at found
  · cases found
  · rename_i off
    obtain ⟨c, before, rfl⟩ := Option.map_eq_some_iff.mp found
    have kept : (s.deleteCells axis i).listenersOf p = s.listenersOf p := by
      unfold listenersOf
      rw [listeners_deleteCells.1, List.filter_filter]
      congr 1
      apply List.filter_congr
      rintro ⟨l, q⟩ -
      by_cases same : q = p
      · simp [same, off]
      · simp [same]
    rw [Cell.listeners_dropReaders, kept]
    exact enrolled p c before

theorem Enrolled.apply (enrolled : s.Enrolled) (sound : s.Sound) (op : Operation) :
    (s.apply op).sheet.Enrolled := by
  have reflow {u : Sheet} (enrolled : u.Enrolled) : (u.reflow s.addressOf).sheet.Enrolled :=
    enrolled.alike (alike_reflow u _) (sameFrame_reflow u _).listeners
  cases op with
  | setInput a raw => exact enrolled.setInput a raw
  | clear a => exact enrolled.setInput a ""
  | subscribe a => exact enrolled.subscribe sound.wired a
  | unsubscribe l => exact enrolled.unsubscribe sound.wired l
  | insertLine axis i =>
    show (s.insertLine axis i).sheet.Enrolled
    rcases s.insertLine_cases axis i with same | ⟨-, changed⟩
    · rw [same]
      exact enrolled
    · rw [changed]
      exact reflow (enrolled.insertCells sound.wired)
  | deleteLine axis i =>
    show (s.deleteLine axis i).sheet.Enrolled
    rcases sound.deleteLine_cases axis i with same | ⟨-, -, changed⟩
    · rw [same]
      exact enrolled
    · rw [changed]
      exact reflow (enrolled.deleteCells sound.wired)
  | recalculate =>
    exact enrolled.alike (alike_recalculate Cell.listeners_recompute s) (sameFrame_recalculate s).listeners

theorem Reachable.enrolled (reachable : s.Reachable) : s.Enrolled :=
  reachable.invariant enrolled_ofSize fun _ op before enrolled _ => enrolled.apply before.sound op

/-! Numbers are handed out in the order of registration. -/

/-- A call takes listeners off the table, or puts one with a new number at its end. -/
theorem Sound.listeners_apply (sound : s.Sound) (op : Operation) :
    (s.apply op).sheet.listeners.Sublist s.listeners ∨
      ∃ id, (s.apply op).sheet.listeners = s.listeners ++ [(⟨s.nextListener⟩, id)] := by
  have same {t : Sheet} (frame : SameFrame s t) : t.listeners.Sublist s.listeners := by
    rw [frame.listeners]
  cases op with
  | setInput a raw => exact .inl (same (sameFrame_setInput s a raw))
  | clear a => exact .inl (same (sameFrame_setInput s a ""))
  | subscribe a =>
    show (s.subscribe a).sheet.listeners.Sublist s.listeners ∨
      ∃ id, (s.subscribe a).sheet.listeners = s.listeners ++ [(⟨s.nextListener⟩, id)]
    unfold Sheet.subscribe
    split
    · exact .inl (.refl _)
    · exact .inr ⟨_, rfl⟩
  | unsubscribe l =>
    show (s.unsubscribe l).sheet.listeners.Sublist s.listeners ∨ _
    unfold Sheet.unsubscribe
    split
    · exact .inl (.refl _)
    · exact .inl List.filter_sublist
  | insertLine axis i =>
    show (s.insertLine axis i).sheet.listeners.Sublist s.listeners ∨ _
    rcases s.insertLine_cases axis i with unchanged | ⟨-, changed⟩
    · rw [unchanged]
      exact .inl (.refl _)
    · rw [changed, (sameFrame_reflow _ _).listeners, listeners_insertCells.1]
      exact .inl (.refl _)
  | deleteLine axis i =>
    show (s.deleteLine axis i).sheet.listeners.Sublist s.listeners ∨ _
    rcases sound.deleteLine_cases axis i with unchanged | ⟨-, -, changed⟩
    · rw [unchanged]
      exact .inl (.refl _)
    · rw [changed, (sameFrame_reflow _ _).listeners, listeners_deleteCells.1]
      exact .inl List.filter_sublist
  | recalculate => exact .inl (same (sameFrame_recalculate s))

/-- The table lists the listeners by their numbers. -/
def Numbered (s : Sheet) : Prop := s.listeners.Pairwise fun k l => k.1.index < l.1.index

theorem Numbered.apply (numbered : s.Numbered) (sound : s.Sound) (op : Operation) :
    (s.apply op).sheet.Numbered := by
  unfold Numbered
  rcases sound.listeners_apply op with fewer | ⟨id, more⟩
  · exact numbered.sublist fewer
  · rw [more]
    refine List.pairwise_append.mpr ⟨numbered, List.pairwise_singleton _ _, fun k listed l new => ?_⟩
    rw [List.mem_singleton.mp new]
    exact sound.wired.numbers k.1 k.2 listed

theorem Reachable.numbered (reachable : s.Reachable) : s.Numbered :=
  reachable.invariant (fun _ _ => List.Pairwise.nil) fun _ op before numbered _ =>
    numbered.apply before.sound op

theorem Numbered.listenersOf (numbered : s.Numbered) (p : CellId) :
    (s.listenersOf p).Pairwise fun k l => k.index < l.index :=
  List.pairwise_map.mpr (numbered.sublist List.filter_sublist)

end Sheet
end Spreadsheet
