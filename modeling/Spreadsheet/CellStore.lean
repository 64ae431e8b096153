import Spreadsheet.Cell

/-! The live cells by their identifiers. -/
namespace Spreadsheet

/-- A slot for every identifier handed out so far; that of a deleted cell stays empty. -/
structure CellStore where
  slots : Array (Option Cell)

namespace CellStore

def get? (s : CellStore) (id : CellId) : Option Cell := (s.slots[id.index]?).join

def valueOf (s : CellStore) (id : CellId) : Option Value := (s.get? id).map Cell.value

/-- The identifiers of the live cells, oldest first. -/
def ids (s : CellStore) : List CellId :=
  ((List.range s.slots.size).map CellId.mk).filter fun id => (s.get? id).isSome

/-- The next `count` identifiers to be handed out. -/
def nextIds (s : CellStore) (count : Nat) : List CellId :=
  (List.range count).map fun i => ⟨s.slots.size + i⟩

/-- Hand out `nextIds`, each to an empty cell. -/
def allocate (s : CellStore) (count : Nat) : CellStore :=
  ⟨s.slots ++ Array.replicate count (some .empty)⟩

def modify (s : CellStore) (id : CellId) (f : Cell → Cell) : CellStore :=
  ⟨s.slots.modify id.index (·.map f)⟩

/-- Replace a live cell. -/
def set (s : CellStore) (id : CellId) (c : Cell) : CellStore :=
  ⟨s.slots.setIfInBounds id.index (some c)⟩

def erase (s : CellStore) (id : CellId) : CellStore :=
  ⟨s.slots.modify id.index fun _ => none⟩

theorem get?_allocate (s : CellStore) (count : Nat) (id : CellId) :
    (s.allocate count).get? id =
      if id.index < s.slots.size then s.get? id
      else if id.index < s.slots.size + count then some .empty else none := by
  simp only [get?, allocate, Array.getElem?_append, Array.getElem?_replicate]
  grind

theorem get?_modify (s : CellStore) (i j : CellId) (f : Cell → Cell) :
    (s.modify i f).get? j = if i = j then (s.get? j).map f else s.get? j := by
  obtain ⟨i⟩ := i
  obtain ⟨j⟩ := j
  simp only [get?, modify, Array.getElem?_modify, CellId.mk.injEq]
  split <;> cases s.slots[j]? <;> rfl

theorem get?_erase (s : CellStore) (i j : CellId) :
    (s.erase i).get? j = if i = j then none else s.get? j := by
  obtain ⟨i⟩ := i
  obtain ⟨j⟩ := j
  simp only [get?, erase, Array.getElem?_modify, CellId.mk.injEq]
  split <;> cases s.slots[j]? <;> rfl

theorem index_lt_of_get? {s : CellStore} {id : CellId} {c : Cell} (h : s.get? id = some c) :
    id.index < s.slots.size := by
  grind [get?]

theorem get?_set {s : CellStore} {i : CellId} (live : (s.get? i).isSome) (c : Cell) (j : CellId) :
    (s.set i c).get? j = if i = j then some c else s.get? j := by
  obtain ⟨old, h⟩ := Option.isSome_iff_exists.mp live
  have := index_lt_of_get? h
  obtain ⟨i⟩ := i
  obtain ⟨j⟩ := j
  simp only [get?, set, Array.getElem?_setIfInBounds, CellId.mk.injEq]
  grind

theorem mem_ids {s : CellStore} {id : CellId} : id ∈ s.ids ↔ (s.get? id).isSome := by
  simp only [ids, List.mem_filter, List.mem_map, List.mem_range]
  constructor
  · exact fun h => h.2
  · intro h
    obtain ⟨c, hc⟩ := Option.isSome_iff_exists.mp h
    exact ⟨⟨id.index, index_lt_of_get? hc, rfl⟩, h⟩

theorem nodup_ids (s : CellStore) : s.ids.Nodup := by
  refine List.Nodup.sublist List.filter_sublist ?_
  simpa [List.Nodup, List.pairwise_map] using List.nodup_range

end CellStore
end Spreadsheet
