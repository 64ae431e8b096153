import Spreadsheet.Proofs.Lines
import Spreadsheet.Proofs.Wiring

/-! The cells of a line that is inserted or deleted: addresses stay unique and subscriptions stay
in step with formulas, before any formula is restated. -/
namespace Spreadsheet

namespace CellStore

theorem getElem?_nextIds {s : CellStore} {count k : Nat} {id : CellId} :
    (s.nextIds count)[k]? = some id ↔ k < count ∧ id = ⟨s.slots.size + k⟩ := by
  unfold nextIds
  rw [List.getElem?_map, Option.map_eq_some_iff]
  constructor
  · rintro ⟨j, found, rfl⟩
    obtain ⟨inside, rfl⟩ := List.getElem?_eq_some_iff.mp found
    simp at inside
    simp [inside]
  · rintro ⟨inside, rfl⟩
    exact ⟨k, by simp [inside], rfl⟩

theorem get?_of_nextIds {s : CellStore} {count k : Nat} {id : CellId}
    (h : (s.nextIds count)[k]? = some id) :
    s.get? id = none ∧ (s.allocate count).get? id = some .empty := by
  obtain ⟨inside, rfl⟩ := getElem?_nextIds.mp h
  constructor
  · simp [get?]
  · rw [get?_allocate, if_neg (by simp), if_pos (by simpa using inside)]

theorem get?_allocate_of_live {s : CellStore} {count : Nat} {id : CellId} {c : Cell}
    (h : s.get? id = some c) : (s.allocate count).get? id = some c := by
  rw [get?_allocate, if_pos (index_lt_of_get? h), h]

theorem exists_of_get?_allocate {s : CellStore} {count : Nat} {id : CellId} {c : Cell}
    (h : (s.allocate count).get? id = some c) : s.get? id = some c ∨
      c = .empty ∧ s.get? id = none ∧ ∃ k : Nat, (s.nextIds count)[k]? = some id := by
  rw [get?_allocate] at h
  split at h
  · exact .inl h
  · rename_i behind
    split at h
    · rename_i inside
      cases h
      have place : id = ⟨s.slots.size + (id.index - s.slots.size)⟩ := by
        obtain ⟨index⟩ := id
        simp only [CellId.mk.injEq] at *
        omega
      have fresh := getElem?_nextIds.mpr ⟨show id.index - s.slots.size < count by omega, place⟩
      exact .inr ⟨rfl, (get?_of_nextIds fresh).1, _, fresh⟩
    · cases h

theorem get?_foldl_erase (gone : List CellId) (s : CellStore) (id : CellId) :
    (gone.foldl erase s).get? id = if id ∈ gone then none else s.get? id := by
  induction gone generalizing s with
  | nil => simp
  | cons first gone ih =>
    rw [List.foldl_cons, ih, get?_erase]
    by_cases same : id = first
    · simp [same]
    · simp [same, Ne.symm same]

theorem size_foldl_erase (gone : List CellId) (s : CellStore) :
    (gone.foldl erase s).slots.size = s.slots.size := by
  induction gone generalizing s with
  | nil => rfl
  | cons first gone ih => exact (ih _).trans Array.size_modify

end CellStore

namespace Sheet

variable {s : Sheet} {axis : Axis} {i : Nat}

/-! Insertion. -/

/-- How many cells there are in a line. -/
def lineLength (s : Sheet) : Axis → Nat
  | .row => s.width
  | .column => s.height

theorem lineCount_congr {t : Sheet} (frame : SameFrame s t) (axis : Axis) :
    t.lineCount axis = s.lineCount axis ∧ t.lineLength axis = s.lineLength axis := by
  have width : t.width = s.width := congrArg List.length frame.columns
  cases axis
  · exact ⟨frame.height, width⟩
  · exact ⟨width, frame.height⟩

theorem lineCount_insertCells (inside : i ≤ s.lineCount axis) :
    (s.insertCells axis i).lineCount axis = s.lineCount axis + 1 ∧
      (s.insertCells axis i).lineLength axis = s.lineLength axis := by
  cases axis with
  | row =>
    refine ⟨rfl, ?_⟩
    simp [lineLength, Sheet.width, Sheet.insertCells, CellStore.nextIds]
  | column => exact ⟨List.length_insertIdx_of_le_length inside _, rfl⟩

theorem cells_insertCells :
    (s.insertCells axis i).cells = s.cells.allocate (s.lineLength axis) := by
  cases axis <;> rfl

theorem listeners_insertCells : (s.insertCells axis i).listeners = s.listeners ∧
    (s.insertCells axis i).nextListener = s.nextListener := by
  cases axis <;> exact ⟨rfl, rfl⟩

theorem opens_insertCells : Opens s (s.insertCells axis i) axis i := by
  intro a
  cases axis with
  | row =>
    simp only [idAt?, insertCells, Address.opened, List.getElem?_zipWith']
    cases found : s.columns[a.column]? with
    | none => rfl
    | some column =>
      have inside : a.column < s.width := (List.getElem?_eq_some_iff.mp found).1
      have new := CellStore.getElem?_nextIds (s := s.cells) |>.mpr ⟨inside, rfl⟩
      simp only [Option.map_some, Option.bind_some, new, getElem?_insertIdx_stepOver]
  | column =>
    simp only [idAt?, insertCells, Address.opened, getElem?_insertIdx_stepOver]

theorem idAt?_insertCells_line (laid : s.Laid) (inside : i ≤ s.lineCount axis) {a : Address}
    (on : a.along axis = i) : (s.insertCells axis i).idAt? a =
      (s.cells.nextIds (s.lineLength axis))[a.across axis]? := by
  cases axis with
  | row =>
    simp only [Address.along] at on
    simp only [idAt?, insertCells, List.getElem?_zipWith', Address.across, lineLength]
    cases found : s.columns[a.column]? with
    | none =>
      have outside : s.width ≤ a.column := List.getElem?_eq_none_iff.mp found
      have none : (s.cells.nextIds s.width)[a.column]? = none :=
        List.getElem?_eq_none (by simpa [CellStore.nextIds] using outside)
      simp only [Option.map_none, Option.bind_none, none]
    | some column =>
      have height := laid.height column (List.mem_of_getElem? found)
      cases new : (s.cells.nextIds s.width)[a.column]? with
      | none => rfl
      | some id =>
        simp only [Option.map_some, Option.bind_some, on, List.getElem?_insertIdx_self]
        rw [if_pos (by rw [height]; exact inside)]
  | column =>
    simp only [Address.along] at on
    simp only [idAt?, insertCells, on, List.getElem?_insertIdx_self, Address.across, lineLength]
    rw [if_pos (show i ≤ s.columns.length from inside)]
    rfl

theorem idAt?_insertCells (laid : s.Laid) (inside : i ≤ s.lineCount axis) {a : Address}
    {id : CellId} (h : (s.insertCells axis i).idAt? a = some id) :
    (∃ b : Address, b.opened axis i = a ∧ s.idAt? b = some id) ∨
      a.along axis = i ∧ (s.cells.nextIds (s.lineLength axis))[a.across axis]? = some id := by
  by_cases on : a.along axis = i
  · rw [idAt?_insertCells_line laid inside on] at h
    exact .inr ⟨on, h⟩
  · obtain ⟨b, rfl⟩ := Address.exists_opened on
    rw [opens_insertCells] at h
    exact .inl ⟨b, rfl, h⟩

theorem Laid.insertCells (laid : s.Laid) (inside : i ≤ s.lineCount axis) :
    (s.insertCells axis i).Laid where
  height := by
    cases axis with
    | row =>
      intro column member
      obtain ⟨c, found, rfl⟩ := List.getElem_of_mem member
      simp only [Sheet.insertCells, List.getElem_zipWith]
      rw [List.length_insertIdx_of_le_length]
      · rw [laid.height _ (List.getElem_mem _)]
      · rw [laid.height _ (List.getElem_mem _)]
        exact inside
    | column =>
      intro column member
      rcases (List.mem_insertIdx inside).mp member with rfl | old
      · simp [CellStore.nextIds, Sheet.insertCells]
      · exact laid.height column old
  unique := by
    intro a b id ha hb
    have old {c : Address} (h : s.idAt? c = some id) : s.cells.get? id ≠ none :=
      Option.isSome_iff_ne_none.mp (laid.live_of_idAt? h)
    rcases idAt?_insertCells laid inside ha with ⟨c, rfl, oldA⟩ | ⟨onA, newA⟩ <;>
      rcases idAt?_insertCells laid inside hb with ⟨d, rfl, oldB⟩ | ⟨onB, newB⟩
    · rw [laid.unique c d id oldA oldB]
    · exact absurd (CellStore.get?_of_nextIds newB).1 (old oldA)
    · exact absurd (CellStore.get?_of_nextIds newA).1 (old oldB)
    · have sameA := (CellStore.getElem?_nextIds.mp newA).2
      have sameB := (CellStore.getElem?_nextIds.mp newB).2
      rw [sameA, CellId.mk.injEq] at sameB
      exact Address.ext_along (onA.trans onB.symm) (by omega)
  live := by
    intro id
    rw [cells_insertCells]
    constructor
    · rintro ⟨a, h⟩
      rcases idAt?_insertCells laid inside h with ⟨b, rfl, found⟩ | ⟨-, new⟩
      · obtain ⟨c, live⟩ := laid.exists_get? found
        rw [CellStore.get?_allocate_of_live live]
        rfl
      · rw [(CellStore.get?_of_nextIds new).2]
        rfl
    · intro live
      obtain ⟨c, found⟩ := Option.isSome_iff_exists.mp live
      rcases CellStore.exists_of_get?_allocate found with old | ⟨-, -, k, new⟩
      · obtain ⟨a, h⟩ := (laid.live id).mpr (by simp [old])
        exact ⟨a.opened axis i, by rw [opens_insertCells, h]⟩
      · cases axis with
        | row =>
          exact ⟨⟨k, i⟩, (idAt?_insertCells_line laid inside rfl).trans new⟩
        | column =>
          exact ⟨⟨i, k⟩, (idAt?_insertCells_line laid inside rfl).trans new⟩

theorem precedents_insertCells (c : CellId) :
    (s.insertCells axis i).precedents c = s.precedents c := by
  unfold precedents
  rw [cells_insertCells]
  cases found : (s.cells.allocate (s.lineLength axis)).get? c with
  | none =>
    have none : s.cells.get? c = none := by
      by_contra live
      obtain ⟨d, live⟩ := Option.ne_none_iff_exists'.mp live
      rw [CellStore.get?_allocate_of_live live] at found
      cases found
    rw [none]
  | some d =>
    rcases CellStore.exists_of_get?_allocate found with old | ⟨rfl, none, -⟩
    · rw [old]
    · rw [none]
      rfl

theorem reads_insertCells : (s.insertCells axis i).Reads = s.Reads := by
  funext c p
  unfold Reads
  rw [precedents_insertCells]

theorem Acyclic.insertCells (acyclic : s.Acyclic) : (s.insertCells axis i).Acyclic := by
  unfold Acyclic
  rw [reads_insertCells]
  exact acyclic

theorem Wired.insertCells (wired : s.Wired) : (s.insertCells axis i).Wired := by
  have grown {p : CellId} (live : (s.cells.get? p).isSome) :
      ((s.insertCells axis i).cells.get? p).isSome := by
    obtain ⟨c, found⟩ := Option.isSome_iff_exists.mp live
    rw [cells_insertCells, CellStore.get?_allocate_of_live found]
    rfl
  have each {p : CellId} {c : Cell} (h : (s.insertCells axis i).cells.get? p = some c) :
      s.cells.get? p = some c ∨ c = .empty ∧ s.cells.get? p = none := by
    rw [cells_insertCells] at h
    rcases CellStore.exists_of_get?_allocate h with old | ⟨new, none, -⟩
    · exact .inl old
    · exact .inr ⟨new, none⟩
  constructor
  case readers =>
    intro p cell c h
    rw [reads_insertCells]
    rcases each h with old | ⟨rfl, none⟩
    · exact wired.readers p cell c old
    · have unread : ¬ s.Reads c p := fun reads => by simpa [none] using wired.read_live c p reads
      simp [Cell.empty, unread]
  case watchers =>
    intro p cell l h
    rw [listeners_insertCells.1]
    rcases each h with old | ⟨rfl, none⟩
    · exact wired.watchers p cell l old
    · have unlisted : (l, p) ∉ s.listeners := fun h => by simpa [none] using wired.watched_live l p h
      simp [Cell.empty, unlisted]
  case nodup =>
    intro p cell h
    rcases each h with old | ⟨rfl, -⟩
    · exact wired.nodup p cell old
    · exact List.nodup_nil
  case read_live =>
    intro c p reads
    rw [reads_insertCells] at reads
    exact grown (wired.read_live c p reads)
  case watched_live =>
    intro l p h
    rw [listeners_insertCells.1] at h
    exact grown (wired.watched_live l p h)
  case numbers =>
    rw [listeners_insertCells.1, listeners_insertCells.2]
    exact wired.numbers
  case keys =>
    rw [listeners_insertCells.1]
    exact wired.keys

/-! Deletion. -/

/-- Who is subscribed reads the cell. -/
def Told (s : Sheet) : Prop :=
  ∀ p cell c, s.cells.get? p = some cell → .cell c ∈ cell.subscribers → s.Reads c p

theorem get?_rewire_nil (told : s.Told) (id p : CellId) :
    (s.rewire id []).cells.get? p = (s.cells.get? p).map (·.detach (.cell id)) := by
  rw [get?_rewire s id p List.nodup_nil]
  apply Option.map_congr
  intro c found
  unfold Cell.relink
  rw [if_neg List.not_mem_nil]
  split
  · rfl
  · rename_i unread
    have absent : .cell id ∉ c.subscribers := fun h => unread (told p c id found h)
    unfold Cell.detach
    rw [List.erase_of_not_mem absent]

theorem precedents_rewire_nil (told : s.Told) (id c : CellId) :
    (s.rewire id []).precedents c = s.precedents c := by
  unfold precedents
  rw [get?_rewire_nil told, Option.map_map]
  rfl

theorem Told.rewire_nil (told : s.Told) (id : CellId) : (s.rewire id []).Told := by
  intro p cell c found member
  rw [get?_rewire_nil told] at found
  obtain ⟨old, before, rfl⟩ := Option.map_eq_some_iff.mp found
  unfold Reads
  rw [precedents_rewire_nil told]
  exact told p old c before (List.mem_of_mem_erase member)

theorem get?_foldl_rewire_nil (gone : List CellId) (told : s.Told) (p : CellId) :
    (gone.foldl (fun s id => s.rewire id []) s).cells.get? p =
      (s.cells.get? p).map (·.dropReaders gone) := by
  induction gone generalizing s with
  | nil => exact Option.map_id'.symm
  | cons id gone ih =>
    rw [List.foldl_cons, ih (told.rewire_nil id), get?_rewire_nil told, Option.map_map]
    rfl

theorem sameFrame_foldl_rewire_nil (gone : List CellId) (s : Sheet) :
    SameFrame s (gone.foldl (fun s id => s.rewire id []) s) :=
  .foldl (fun s id => sameFrame_rewire s id []) gone s

theorem Wired.told (wired : s.Wired) : s.Told :=
  fun p cell c found => (wired.readers p cell c found).mp

theorem cells_deleteCells : (s.deleteCells axis i).cells = (s.line axis i).foldl CellStore.erase
    ((s.line axis i).foldl (fun s id => s.rewire id []) s).cells := by
  cases axis <;> rfl

theorem get?_deleteCells (wired : s.Wired) (p : CellId) : (s.deleteCells axis i).cells.get? p =
    if p ∈ s.line axis i then none else (s.cells.get? p).map (·.dropReaders (s.line axis i)) := by
  rw [cells_deleteCells, CellStore.get?_foldl_erase, get?_foldl_rewire_nil _ wired.told]

theorem listeners_deleteCells : (s.deleteCells axis i).listeners =
    s.listeners.filter (·.2 ∉ s.line axis i) ∧
      (s.deleteCells axis i).nextListener = s.nextListener := by
  have frame := sameFrame_foldl_rewire_nil (s.line axis i) s
  rw [← frame.listeners, ← frame.nextListener]
  cases axis <;> exact ⟨rfl, rfl⟩

theorem lineCount_deleteCells (inside : i < s.lineCount axis) :
    (s.deleteCells axis i).lineCount axis + 1 = s.lineCount axis ∧
      (s.deleteCells axis i).lineLength axis = s.lineLength axis := by
  have frame := sameFrame_foldl_rewire_nil (s.line axis i) s
  have enough := Nat.sub_add_cancel (Nat.zero_lt_of_lt inside)
  cases axis with
  | row =>
    have height : (s.deleteCells .row i).height = s.height - 1 := by
      simp only [Sheet.deleteCells, frame.height]
    have width : (s.deleteCells .row i).width = s.width := by
      simp only [Sheet.width, Sheet.deleteCells, frame.columns, List.length_map]
    exact ⟨(congrArg (· + 1) height).trans enough, width⟩
  | column =>
    have width : (s.deleteCells .column i).width = s.width - 1 := by
      simp only [Sheet.width, Sheet.deleteCells, frame.columns]
      exact List.length_eraseIdx_of_lt inside
    exact ⟨(congrArg (· + 1) width).trans enough, frame.height⟩

theorem opens_deleteCells : Opens (s.deleteCells axis i) s axis i := by
  intro a
  have columns := (sameFrame_foldl_rewire_nil (s.line axis i) s).columns
  cases axis with
  | row =>
    simp only [idAt?, deleteCells, columns, Address.opened, List.getElem?_map]
    cases s.columns[a.column]? with
    | none => rfl
    | some column => exact (getElem?_eraseIdx_stepOver column i a.row).symm
  | column =>
    simp only [idAt?, deleteCells, columns, Address.opened, getElem?_eraseIdx_stepOver]

theorem Laid.deleteCells (laid : s.Laid) (wired : s.Wired) (inside : i < s.lineCount axis) :
    (s.deleteCells axis i).Laid := by
  have frame := sameFrame_foldl_rewire_nil (s.line axis i) s
  constructor
  case height =>
    cases axis with
    | row =>
      intro column member
      simp only [Sheet.deleteCells, frame.columns, frame.height, List.mem_map] at member ⊢
      obtain ⟨old, member, rfl⟩ := member
      have height := laid.height old member
      rw [List.length_eraseIdx_of_lt (by rw [height]; exact inside), height]
    | column =>
      intro column member
      simp only [Sheet.deleteCells, frame.columns, frame.height] at member ⊢
      exact laid.height column (List.mem_of_mem_eraseIdx member)
  case unique =>
    intro a b id ha hb
    rw [← opens_deleteCells] at ha hb
    exact Address.opened_inj (laid.unique _ _ id ha hb)
  case live =>
    intro id
    rw [get?_deleteCells wired]
    constructor
    · rintro ⟨a, h⟩
      rw [← opens_deleteCells] at h
      have off : id ∉ s.line axis i := by
        intro on
        obtain ⟨b, on, found⟩ := mem_line.mp on
        exact Address.along_opened_ne (laid.unique _ _ id h found ▸ on)
      rw [if_neg off, Option.isSome_map]
      exact laid.live_of_idAt? h
    · intro live
      split at live
      · cases live
      · rename_i off
        rw [Option.isSome_map] at live
        obtain ⟨b, found⟩ := (laid.live id).mpr live
        have other : b.along axis ≠ i := fun on => off (mem_line.mpr ⟨b, on, found⟩)
        obtain ⟨a, rfl⟩ := Address.exists_opened other
        rw [opens_deleteCells] at found
        exact ⟨a, found⟩

theorem precedents_deleteCells (wired : s.Wired) (c : CellId) :
    (s.deleteCells axis i).precedents c = if c ∈ s.line axis i then [] else s.precedents c := by
  unfold precedents
  rw [get?_deleteCells wired]
  split
  · rfl
  · rw [Option.map_map]
    congr 1
    apply Option.map_congr
    intro cell _
    exact congrArg Formula.precedents (Cell.formula_dropReaders _ cell)

theorem reads_deleteCells (wired : s.Wired) {c p : CellId} :
    (s.deleteCells axis i).Reads c p ↔ c ∉ s.line axis i ∧ s.Reads c p := by
  unfold Reads
  rw [precedents_deleteCells wired]
  split <;> simp_all

theorem Acyclic.deleteCells (acyclic : s.Acyclic) (wired : s.Wired) :
    (s.deleteCells axis i).Acyclic := by
  intro c cycle
  refine acyclic c (Relation.TransGen.mono ?_ c c cycle)
  exact fun c p reads => ((reads_deleteCells wired).mp reads).2

/-- If nothing on the line is read from off it. -/
theorem Wired.deleteCells (wired : s.Wired)
    (unread : ∀ c p, s.Reads c p → p ∈ s.line axis i → c ∈ s.line axis i) :
    (s.deleteCells axis i).Wired := by
  have listed {l : ListenerId} {p : CellId} : (l, p) ∈ (s.deleteCells axis i).listeners ↔
      (l, p) ∈ s.listeners ∧ p ∉ s.line axis i := by
    rw [listeners_deleteCells.1]
    simp
  have kept {p : CellId} (live : (s.cells.get? p).isSome) (off : p ∉ s.line axis i) :
      ((s.deleteCells axis i).cells.get? p).isSome := by
    rw [get?_deleteCells wired, if_neg off, Option.isSome_map]
    exact live
  have each {p : CellId} {cell : Cell} (h : (s.deleteCells axis i).cells.get? p = some cell) :
      p ∉ s.line axis i ∧
        ∃ old, s.cells.get? p = some old ∧ cell = old.dropReaders (s.line axis i) := by
    rw [get?_deleteCells wired] at h
    split at h
    · cases h
    · rename_i off
      obtain ⟨old, found, rfl⟩ := Option.map_eq_some_iff.mp h
      exact ⟨off, old, found, rfl⟩
  constructor
  case readers =>
    intro p cell c h
    obtain ⟨off, old, found, rfl⟩ := each h
    rw [Cell.mem_dropReaders (wired.nodup p old found), reads_deleteCells wired,
      wired.readers p old c found, and_comm]
    apply and_congr_left
    intro _
    constructor
    · exact fun others on => others c on rfl
    · rintro missing id on ⟨⟩
      exact missing on
  case watchers =>
    intro p cell l h
    obtain ⟨off, old, found, rfl⟩ := each h
    rw [Cell.mem_dropReaders (wired.nodup p old found), listed, wired.watchers p old l found]
    simp [off]
  case nodup =>
    intro p cell h
    obtain ⟨off, old, found, rfl⟩ := each h
    exact Cell.nodup_dropReaders (wired.nodup p old found)
  case read_live =>
    intro c p reads
    obtain ⟨off, reads⟩ := (reads_deleteCells wired).mp reads
    exact kept (wired.read_live c p reads) fun on => off (unread c p reads on)
  case watched_live =>
    intro l p h
    obtain ⟨old, off⟩ := listed.mp h
    exact kept (wired.watched_live l p old) off
  case numbers =>
    intro l p h
    rw [listeners_deleteCells.2]
    exact wired.numbers l p (listed.mp h).1
  case keys =>
    rw [listeners_deleteCells.1]
    exact wired.keys.sublist (List.filter_sublist.map _)

end Sheet
end Spreadsheet
