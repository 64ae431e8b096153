import Spreadsheet.Proofs.Deletion

/-! A sheet over time: where its cells are, the map of that which is kept beside the grid, and
the identifiers that have been handed out. -/
namespace Spreadsheet
namespace Sheet

variable {s t : Sheet} {axis : Axis} {i : Nat} {id : CellId}

/-! The grid. -/

/-- All cells, column by column. -/
def grid (s : Sheet) : List CellId := s.columns.flatten

theorem mem_grid : id ∈ s.grid ↔ ∃ a, s.idAt? a = some id := by
  simp only [grid, List.mem_flatten, idAt?_eq_some]
  constructor
  · rintro ⟨column, member, within⟩
    obtain ⟨c, found⟩ := List.mem_iff_getElem?.mp member
    obtain ⟨r, place⟩ := List.mem_iff_getElem?.mp within
    exact ⟨⟨c, r⟩, column, found, place⟩
  · rintro ⟨a, column, found, place⟩
    exact ⟨column, List.mem_of_getElem? found, List.mem_of_getElem? place⟩

theorem Laid.mem_grid (laid : s.Laid) : id ∈ s.grid ↔ (s.cells.get? id).isSome :=
  Sheet.mem_grid.trans (laid.live id)

theorem Laid.nodup_grid (laid : s.Laid) : s.grid.Nodup := by
  have at? {c r : Nat} (inside : c < s.columns.length) (within : r < s.columns[c].length) :
      s.idAt? ⟨c, r⟩ = some s.columns[c][r] :=
    idAt?_eq_some.mpr ⟨_, List.getElem?_eq_getElem inside, List.getElem?_eq_getElem within⟩
  refine List.nodup_flatten.mpr ⟨fun column member => ?_, List.pairwise_iff_getElem.mpr ?_⟩
  · obtain ⟨c, inside, rfl⟩ := List.getElem_of_mem member
    refine List.pairwise_iff_getElem.mpr fun r r' within within' before same => ?_
    have place := at? inside within
    rw [same] at place
    have rows := congrArg Address.row (laid.unique _ _ _ place (at? inside within'))
    exact Nat.ne_of_lt before rows
  · intro c c' inside inside' before id here there
    obtain ⟨r, within, rfl⟩ := List.getElem_of_mem here
    obtain ⟨r', within', same⟩ := List.getElem_of_mem there
    have place := at? inside' within'
    rw [same] at place
    have columns := congrArg Address.column (laid.unique _ _ _ (at? inside within) place)
    exact Nat.ne_of_lt before columns

/-! The map from cells to addresses. -/

/-- All cells with their addresses, column by column. -/
def places (s : Sheet) : List (CellId × Address) :=
  s.columns.zipIdx.flatMap fun (column, c) => column.zipIdx.map fun (id, r) => (id, ⟨c, r⟩)

/-- The map drawn from the grid; what is entered later replaces what was there. -/
def chart (s : Sheet) : CellId → Option Address :=
  s.places.foldl (fun map (id, a) => Function.update map id (some a)) fun _ => none

theorem mem_places {a : Address} : (id, a) ∈ s.places ↔ s.idAt? a = some id := by
  simp only [places, List.mem_flatMap, List.mem_map, Prod.mk.injEq, idAt?_eq_some]
  constructor
  · rintro ⟨⟨column, c⟩, member, ⟨id, r⟩, within, rfl, rfl⟩
    exact ⟨column, List.mk_mem_zipIdx_iff_getElem?.mp member, List.mk_mem_zipIdx_iff_getElem?.mp within⟩
  · rintro ⟨column, found, place⟩
    exact ⟨(column, a.column), List.mk_mem_zipIdx_iff_getElem?.mpr found, (id, a.row),
      List.mk_mem_zipIdx_iff_getElem?.mpr place, rfl, rfl⟩

/-- What is entered for a cell is found, if not under the first of its addresses. -/
theorem foldl_update_cases (places : List (CellId × Address)) (map : CellId → Option Address)
    (id : CellId) :
    let drawn := places.foldl (fun map (id, a) => Function.update map id (some a)) map
    (∃ a, (id, a) ∈ places ∧ drawn id = some a) ∨ (∀ a, (id, a) ∉ places) ∧ drawn id = map id := by
  induction places generalizing map with
  | nil => exact .inr ⟨fun _ => List.not_mem_nil, rfl⟩
  | cons entry places ih =>
    obtain ⟨id', a'⟩ := entry
    rcases ih (Function.update map id' (some a')) with ⟨a, member, drawn⟩ | ⟨absent, drawn⟩
    · exact .inl ⟨a, List.mem_cons_of_mem _ member, drawn⟩
    · by_cases same : id = id'
      · subst same
        rw [Function.update_self] at drawn
        exact .inl ⟨a', List.mem_cons_self, drawn⟩
      · rw [Function.update_of_ne same] at drawn
        refine .inr ⟨fun a => ?_, drawn⟩
        simp [same, absent a]

theorem Laid.chart_eq (laid : s.Laid) : s.chart = s.addressOf := by
  funext id
  rcases foldl_update_cases s.places (fun _ => none) id with ⟨a, member, drawn⟩ | ⟨absent, drawn⟩
  · rw [laid.addressOf_eq_some.mpr (mem_places.mp member)]
    exact drawn
  · have nowhere : s.addressOf id = none :=
      Option.eq_none_iff_forall_ne_some.mpr fun a known =>
        absent a (mem_places.mpr (idAt?_of_addressOf known))
    rw [nowhere]
    exact drawn

theorem chart_congr (columns : t.columns = s.columns) : t.chart = s.chart := by
  unfold chart places
  rw [columns]

/-! How many identifiers have been handed out. Most calls hand out none, and move no cell. -/

def issued (s : Sheet) : Nat := s.cells.slots.size

theorem index_lt_issued (live : (s.cells.get? id).isSome) : id.index < s.issued := by
  obtain ⟨c, found⟩ := Option.isSome_iff_exists.mp live
  exact CellStore.index_lt_of_get? found

structure Unmoved (s t : Sheet) : Prop where
  columns : t.columns = s.columns
  issued : t.issued = s.issued

theorem Unmoved.refl (s : Sheet) : Unmoved s s := ⟨rfl, rfl⟩

theorem Unmoved.trans {u : Sheet} (h : Unmoved s t) (h' : Unmoved t u) : Unmoved s u :=
  ⟨h'.columns.trans h.columns, h'.issued.trans h.issued⟩

theorem Unmoved.foldl {α : Type} {f : Sheet → α → Sheet} (step : ∀ s a, Unmoved s (f s a))
    (as : List α) (s : Sheet) : Unmoved s (as.foldl f s) := by
  induction as generalizing s with
  | nil => exact .refl s
  | cons a as ih => exact (step s a).trans (ih _)

theorem Unmoved.mem_grid (unmoved : Unmoved s t) : id ∈ t.grid ↔ id ∈ s.grid := by
  unfold grid
  rw [unmoved.columns]

theorem unmoved_modifyCell (s : Sheet) (id : CellId) (f : Cell → Cell) :
    Unmoved s (s.modifyCell id f) := ⟨rfl, Array.size_modify⟩

theorem unmoved_rewire (s : Sheet) (id : CellId) (ps : List CellId) : Unmoved s (s.rewire id ps) :=
  (Unmoved.foldl (fun _ _ => unmoved_modifyCell _ _ _) _ _).trans
    (Unmoved.foldl (fun _ _ => unmoved_modifyCell _ _ _) _ _)

theorem unmoved_adopt (s : Sheet) (id : CellId) (raw : String) (formula : Formula)
    (value : Cell → Value) : Unmoved s (s.adopt id raw formula value) :=
  (unmoved_rewire s id _).trans (unmoved_modifyCell _ _ _)

theorem unmoved_recompute (s : Sheet) (id : CellId) : Unmoved s (s.recompute id) := by
  unfold recompute
  split
  · exact .refl s
  · exact ⟨rfl, Array.size_setIfInBounds⟩

theorem unmoved_setInput (s : Sheet) (a : Address) (raw : String) :
    Unmoved s (s.setInput a raw).sheet := by
  rcases s.setInput_cases a raw with same | ⟨id, formula, order, -, same⟩
  · rw [same]
    exact .refl s
  · rw [same]
    exact (unmoved_adopt s id raw formula _).trans (.foldl unmoved_recompute _ _)

theorem unmoved_subscribe (s : Sheet) (a : Address) : Unmoved s (s.subscribe a).sheet := by
  unfold subscribe
  split
  · exact .refl s
  · exact ⟨rfl, Array.size_modify⟩

theorem unmoved_unsubscribe (s : Sheet) (l : ListenerId) : Unmoved s (s.unsubscribe l).sheet := by
  unfold unsubscribe
  split
  · exact .refl s
  · exact ⟨rfl, Array.size_modify⟩

theorem unmoved_recalculate (s : Sheet) : Unmoved s s.recalculate.sheet := by
  obtain ⟨order, same⟩ := s.exists_recalculate_eq
  rw [same]
  exact .foldl unmoved_recompute order s

theorem unmoved_restate (new : List (CellId × String × Formula)) (s : Sheet) :
    Unmoved s (s.restate new) := by
  induction new generalizing s with
  | nil => exact .refl s
  | cons e new ih => exact (unmoved_adopt s e.1 e.2.1 e.2.2 Cell.value).trans (ih _)

theorem unmoved_reflow (s : Sheet) (before : CellId → Option Address) :
    Unmoved s (s.reflow before).sheet := by
  rcases s.reflow_cases before with same | ⟨new, same⟩
  · rw [same]
    exact .refl s
  · rw [same]
    exact (unmoved_restate new s).trans (unmoved_recalculate _)

/-! A change of shape. -/

/-- The sheet in its new shape, formulas not yet restated, if the call changes the shape. -/
def reshaped? (s : Sheet) : Operation → Option Sheet
  | .insertLine axis i => if s.lineCount axis < i then none else some (s.insertCells axis i)
  | .deleteLine axis i =>
    if s.lineCount axis ≤ i then none
    else match s.readFromOutside? (s.line axis i) with
      | some _ => none
      | none => some (s.deleteCells axis i)
  | _ => none

/-- The identifiers that a call hands out. -/
def newIds (s : Sheet) : Operation → List CellId
  | .insertLine axis i =>
    if s.lineCount axis < i then [] else s.cells.nextIds (s.lineLength axis)
  | _ => []

theorem reshaped?_deleteLine (s : Sheet) (axis : Axis) (i : Nat) :
    s.reshaped? (.deleteLine axis i) = none ∨
      s.reshaped? (.deleteLine axis i) = some (s.deleteCells axis i) := by
  unfold reshaped?
  dsimp only
  split
  · exact .inl rfl
  · split
    · exact .inl rfl
    · exact .inr rfl

/-- Whatever else a call does leaves the grid as it is. -/
theorem unmoved_apply (s : Sheet) (op : Operation) :
    Unmoved ((s.reshaped? op).getD s) (s.apply op).sheet := by
  cases op with
  | setInput a raw => exact unmoved_setInput s a raw
  | clear a => exact unmoved_setInput s a ""
  | subscribe a => exact unmoved_subscribe s a
  | unsubscribe l => exact unmoved_unsubscribe s l
  | insertLine axis i =>
    simp only [reshaped?, apply, insertLine]
    split
    · exact .refl s
    · exact unmoved_reflow _ _
  | deleteLine axis i =>
    simp only [reshaped?, apply, deleteLine]
    split
    · exact .refl s
    · cases s.readFromOutside? (s.line axis i) with
      | some _ => exact .refl s
      | none => exact unmoved_reflow _ _
  | recalculate => exact unmoved_recalculate s

theorem issued_insertCells : (s.insertCells axis i).issued = s.issued + s.lineLength axis := by
  unfold issued
  rw [cells_insertCells, CellStore.allocate, Array.size_append, Array.size_replicate]

theorem issued_deleteCells : (s.deleteCells axis i).issued = s.issued := by
  unfold issued
  rw [cells_deleteCells, CellStore.size_foldl_erase]
  exact (Unmoved.foldl (fun s id => unmoved_rewire s id []) _ s).issued

theorem mem_grid_insertCells (laid : s.Laid) (inside : i ≤ s.lineCount axis)
    (member : id ∈ (s.insertCells axis i).grid) :
    id ∈ s.grid ∨ id ∈ s.cells.nextIds (s.lineLength axis) := by
  obtain ⟨a, here⟩ := mem_grid.mp member
  rcases idAt?_insertCells laid inside here with ⟨b, -, before⟩ | ⟨-, new⟩
  · exact .inl (mem_grid.mpr ⟨b, before⟩)
  · exact .inr (List.mem_of_getElem? new)

theorem mem_grid_deleteCells (laid : s.Laid) (member : id ∈ (s.deleteCells axis i).grid) :
    id ∈ s.grid ∧ id ∉ s.line axis i := by
  obtain ⟨a, here⟩ := mem_grid.mp member
  rw [← opens_deleteCells] at here
  refine ⟨mem_grid.mpr ⟨_, here⟩, fun on => ?_⟩
  obtain ⟨b, along, there⟩ := mem_line.mp on
  rw [← laid.unique _ _ _ here there] at along
  exact Address.along_opened_ne along

/-! What a call does to the grid, and what it hands out. -/

theorem exists_newIds (s : Sheet) (op : Operation) :
    ∃ count, s.newIds op = s.cells.nextIds count ∧ (s.apply op).sheet.issued = s.issued + count := by
  rw [(s.unmoved_apply op).issued]
  cases op with
  | insertLine axis i =>
    simp only [newIds, reshaped?]
    split
    · exact ⟨0, rfl, rfl⟩
    · exact ⟨_, rfl, issued_insertCells⟩
  | deleteLine axis i =>
    refine ⟨0, rfl, ?_⟩
    rcases s.reshaped?_deleteLine axis i with same | changed
    · rw [same]
      rfl
    · rw [changed]
      exact issued_deleteCells
  | _ => exact ⟨0, rfl, rfl⟩

theorem issued_le_of_mem_newIds {op : Operation} (new : id ∈ s.newIds op) : s.issued ≤ id.index := by
  obtain ⟨count, eq, -⟩ := s.exists_newIds op
  rw [eq] at new
  obtain ⟨k, place⟩ := List.mem_iff_getElem?.mp new
  rw [(CellStore.getElem?_nextIds.mp place).2]
  exact Nat.le_add_right _ _

/-- Nothing gets on the grid but what is handed out. -/
theorem Laid.mem_grid_apply (laid : s.Laid) {op : Operation} (member : id ∈ (s.apply op).sheet.grid) :
    id ∈ s.grid ∨ id ∈ s.newIds op := by
  rw [(s.unmoved_apply op).mem_grid] at member
  cases op with
  | insertLine axis i =>
    simp only [newIds, reshaped?] at member ⊢
    split at member
    · exact .inl member
    · rename_i inside
      rw [if_neg inside]
      exact mem_grid_insertCells laid (Nat.not_lt.mp inside) member
  | deleteLine axis i =>
    rcases s.reshaped?_deleteLine axis i with same | changed
    · rw [same] at member
      exact .inl member
    · rw [changed] at member
      exact .inl (mem_grid_deleteCells laid member).1
  | _ => exact .inl member

/-- A line that has been deleted is off the grid. -/
theorem Sound.not_mem_grid_deleteLine (sound : s.Sound)
    (ok : (s.deleteLine axis i).result = .ok ()) (on : id ∈ s.line axis i) :
    id ∉ (s.deleteLine axis i).sheet.grid := by
  obtain ⟨inside, unread⟩ := sound.unread_of_deleteLine ok
  rw [sound.wired.deleteLine_of_unread inside unread, (unmoved_reflow _ _).mem_grid]
  exact fun member => (mem_grid_deleteCells sound.laid member).2 on

/-- A line that has been inserted consists of what was handed out for it. -/
theorem Laid.mem_newIds_of_mem_line (laid : s.Laid) (ok : (s.insertLine axis i).result = .ok ())
    (on : id ∈ (s.insertLine axis i).sheet.line axis i) : id ∈ s.newIds (.insertLine axis i) := by
  by_cases inside : i ≤ s.lineCount axis
  · rw [insertLine_of_le inside] at on
    obtain ⟨a, along, here⟩ := mem_line.mp on
    rw [idAt?_congr (unmoved_reflow _ _).columns, idAt?_insertCells_line laid inside along] at here
    simp only [newIds, if_neg (Nat.not_lt.mpr inside)]
    exact List.mem_of_getElem? here
  · rw [insertLine_of_lt (Nat.lt_of_not_le inside)] at ok
    cases ok

end Sheet

/-- A sheet with what calls so far have made of it: the map from cells to addresses as it was last
drawn, and all identifiers handed out, oldest first. -/
structure History where
  sheet : Sheet
  map : CellId → Option Address
  handed : List CellId

namespace History

variable {h k : History} {width height : Nat} {op : Operation} {id : CellId}

def start (width height : Nat) : History where
  sheet := .ofSize width height
  map := (Sheet.ofSize width height).chart
  handed := (CellStore.mk #[]).nextIds (width * height)

/-- The map is drawn anew when the shape has changed, and only then. -/
def after (h : History) (op : Operation) : History where
  sheet := (h.sheet.apply op).sheet
  map := ((h.sheet.reshaped? op).map Sheet.chart).getD h.map
  handed := h.handed ++ h.sheet.newIds op

def Leads : History → History → Prop :=
  Relation.ReflTransGen fun h k => ∃ op, k = h.after op ∧ k.sheet.Representable

theorem Leads.reachable (leads : h.Leads k) (reachable : h.sheet.Reachable) : k.sheet.Reachable := by
  induction leads with
  | refl => exact reachable
  | tail _ step ih =>
    obtain ⟨op, rfl, small⟩ := step
    exact ih.apply op small

/-- Every sheet that calls can lead to has a history. -/
theorem reachable_iff {s : Sheet} : s.Reachable ↔ ∃ width height h,
    (Sheet.ofSize width height).Representable ∧ (start width height).Leads h ∧ h.sheet = s := by
  constructor
  · intro reachable
    induction reachable with
    | ofSize small => exact ⟨_, _, _, small, .refl, rfl⟩
    | step _ returns ih =>
      obtain ⟨width, height, h, small, leads, rfl⟩ := ih
      obtain ⟨rfl, small'⟩ := returns
      exact ⟨width, height, _, small, leads.tail ⟨_, rfl, small'⟩, rfl⟩
  · rintro ⟨width, height, h, small, leads, rfl⟩
    exact leads.reachable (.ofSize small)

/-- The map is that of the grid, and slots are counted by what has been handed out. -/
structure Kept (h : History) : Prop where
  map : h.map = h.sheet.chart
  handed : h.handed = (List.range h.sheet.issued).map CellId.mk

theorem kept_start (width height : Nat) : (start width height).Kept where
  map := rfl
  handed := by
    simp [start, CellStore.nextIds, Sheet.issued, Sheet.ofSize, CellStore.allocate]

theorem Kept.after (kept : h.Kept) (op : Operation) : (h.after op).Kept where
  map := by
    have columns := (h.sheet.unmoved_apply op).columns
    show ((h.sheet.reshaped? op).map Sheet.chart).getD h.map = (h.sheet.apply op).sheet.chart
    rw [kept.map, Sheet.chart_congr columns, Option.getD_map]
  handed := by
    obtain ⟨count, new, issued⟩ := h.sheet.exists_newIds op
    show h.handed ++ h.sheet.newIds op = (List.range (h.sheet.apply op).sheet.issued).map CellId.mk
    rw [kept.handed, new, issued, List.range_add, List.map_append, List.map_map]
    rfl

theorem Leads.kept (leads : h.Leads k) (kept : h.Kept) : k.Kept := by
  induction leads with
  | refl => exact kept
  | tail _ step ih =>
    obtain ⟨op, rfl, -⟩ := step
    exact ih.after op

theorem Kept.mem_handed (kept : h.Kept) : id ∈ h.handed ↔ id.index < h.sheet.issued := by
  obtain ⟨index⟩ := id
  simp [kept.handed]

theorem Kept.nodup_handed (kept : h.Kept) : h.handed.Nodup := by
  rw [kept.handed]
  exact List.nodup_range.map fun i j same => CellId.mk.inj same

theorem Leads.issued_le (leads : h.Leads k) : h.sheet.issued ≤ k.sheet.issued := by
  induction leads with
  | refl => exact Nat.le_refl _
  | tail _ step ih =>
    obtain ⟨op, rfl, -⟩ := step
    obtain ⟨count, -, issued⟩ := Sheet.exists_newIds _ op
    rw [after, issued]
    exact Nat.le_add_right_of_le ih

/-- What has been handed out and is off the grid stays off the grid. -/
theorem Leads.mem_grid (leads : h.Leads k) (reachable : h.sheet.Reachable)
    (member : id ∈ k.sheet.grid) : id ∈ h.sheet.grid ∨ h.sheet.issued ≤ id.index := by
  induction leads with
  | refl => exact .inl member
  | tail before step ih =>
    obtain ⟨op, rfl, -⟩ := step
    have laid := (Leads.reachable before reachable).sound.laid
    rcases laid.mem_grid_apply member with there | new
    · exact ih there
    · exact .inr ((Leads.issued_le before).trans (Sheet.issued_le_of_mem_newIds new))

section deleteLine
variable {axis : Axis} {i : Nat}

theorem leads_deleteLine (reachable : h.sheet.Reachable)
    (ok : (h.sheet.deleteLine axis i).result = .ok ()) : h.Leads (h.after (.deleteLine axis i)) := by
  obtain ⟨inside, unread⟩ := reachable.sound.unread_of_deleteLine ok
  refine .single ⟨_, rfl, ?_⟩
  show (h.sheet.deleteLine axis i).sheet.Representable
  rw [reachable.sound.wired.deleteLine_of_unread inside unread]
  exact reachable.representable.deleteCells.congr (Sheet.sameFrame_reflow _ _).symm

theorem Leads.addressOf_of_deleteLine (leads : (h.after (.deleteLine axis i)).Leads k)
    (reachable : h.sheet.Reachable) (ok : (h.sheet.deleteLine axis i).result = .ok ())
    (on : id ∈ h.sheet.line axis i) : k.sheet.addressOf id = none := by
  have laid := reachable.sound.laid
  have first := leads_deleteLine reachable ok
  refine Option.eq_none_iff_forall_ne_some.mpr fun a known => ?_
  have member := Sheet.mem_grid.mpr ⟨a, Sheet.idAt?_of_addressOf known⟩
  rcases leads.mem_grid (first.reachable reachable) member with back | new
  · exact reachable.sound.not_mem_grid_deleteLine ok on back
  · obtain ⟨b, -, here⟩ := Sheet.mem_line.mp on
    have old := Sheet.index_lt_issued (laid.live_of_idAt? here)
    exact absurd (old.trans_le first.issued_le) (Nat.not_lt.mpr new)

end deleteLine

/-- The grid is rectangular, its cells are the live ones, each once, and both the map that is kept
and a look at the grid give their addresses. No identifier is handed out twice, and one whose line
has been deleted has no address ever after. -/
theorem grid_consistent (small : (Sheet.ofSize width height).Representable)
    (leads : (start width height).Leads h) :
    (∀ column ∈ h.sheet.columns, column.length = h.sheet.height) ∧
    h.sheet.columns.flatten.Nodup ∧
    (∀ id, id ∈ h.sheet.columns.flatten ↔ (h.sheet.cells.get? id).isSome) ∧
    (∀ id a, h.sheet.addressOf id = some a ↔ h.sheet.idAt a = .ok id) ∧
    (∀ id a, h.map id = some a ↔ h.sheet.idAt a = .ok id) ∧
    h.handed.Nodup ∧
    (∀ id ∈ h.sheet.columns.flatten, id ∈ h.handed) ∧
    (∀ axis i, (h.sheet.insertLine axis i).result = .ok () →
      ∀ id ∈ (h.sheet.insertLine axis i).sheet.line axis i, id ∉ h.handed) ∧
    ∀ axis i k, (h.sheet.deleteLine axis i).result = .ok () →
      (h.after (.deleteLine axis i)).Leads k →
      ∀ id ∈ h.sheet.line axis i, k.sheet.addressOf id = none ∧ k.map id = none := by
  have reachable := leads.reachable (.ofSize small)
  have kept := leads.kept (kept_start width height)
  have laid := reachable.sound.laid
  have known (id : CellId) (a : Address) :
      h.sheet.addressOf id = some a ↔ h.sheet.idAt a = .ok id :=
    laid.addressOf_eq_some.trans Sheet.idAt_eq_ok.symm
  refine ⟨laid.height, laid.nodup_grid, fun _ => laid.mem_grid, known, ?_, kept.nodup_handed, ?_, ?_, ?_⟩
  · rw [kept.map, laid.chart_eq]
    exact known
  · intro id member
    exact kept.mem_handed.mpr (Sheet.index_lt_issued (laid.mem_grid.mp member))
  · intro axis i ok id on old
    have new := Sheet.issued_le_of_mem_newIds (laid.mem_newIds_of_mem_line ok on)
    exact absurd (kept.mem_handed.mp old) (Nat.not_lt.mpr new)
  · intro axis i k ok later id on
    have gone := later.addressOf_of_deleteLine reachable ok on
    have run := (leads_deleteLine reachable ok).trans later
    have laid' := (Leads.reachable run reachable).sound.laid
    refine ⟨gone, ?_⟩
    rw [(Leads.kept run kept).map, laid'.chart_eq]
    exact gone

/-- Two columns of two cells, with a row put between their rows. -/
def sample : History := (start 2 2).after (.insertLine .row 1)

/-- The row is deleted again, and its cells have no address whatever follows. -/
theorem grid_consistent_sample : sample.sheet.columns = [[⟨0⟩, ⟨4⟩, ⟨1⟩], [⟨2⟩, ⟨5⟩, ⟨3⟩]] ∧
    sample.handed = [⟨0⟩, ⟨1⟩, ⟨2⟩, ⟨3⟩, ⟨4⟩, ⟨5⟩] ∧ sample.handed.Nodup ∧
    sample.map ⟨4⟩ = some ⟨0, 1⟩ ∧
    ∀ k, (sample.after (.deleteLine .row 1)).Leads k → k.sheet.addressOf ⟨4⟩ = none := by
  have leads : (start 2 2).Leads sample := .single ⟨_, rfl, by decide +kernel⟩
  obtain ⟨-, -, -, -, map, nodup, -, -, gone⟩ := grid_consistent (by decide) leads
  refine ⟨by decide +kernel, by decide +kernel, nodup, (map _ _).mpr (by decide +kernel), fun k later => ?_⟩
  exact (gone .row 1 k (by decide +kernel) later ⟨4⟩ (by decide +kernel)).1

end History
end Spreadsheet
