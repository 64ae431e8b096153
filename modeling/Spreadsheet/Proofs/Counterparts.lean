import Spreadsheet.Proofs.CellText

/-! Two sheets of one size, cell against cell at each address. An input stands for the same on
both, and the same inputs everywhere come to the same values. -/
namespace Spreadsheet.Sheet
open Spreadsheet.Formula

variable {s t u : Sheet} {a : Address} {id : CellId}

/-- The cell of `t` at the address that this cell has on `s`. -/
def counterpart (s t : Sheet) (id : CellId) : CellId := ((s.addressOf id).bind t.idAt?).getD id

/-- The same addresses; cells may be named otherwise. -/
structure SameSize (s t : Sheet) : Prop where
  laid : s.Laid
  laid' : t.Laid
  width : t.width = s.width
  height : t.height = s.height

theorem counterpart_congr (columns : u.columns = t.columns) : s.counterpart u = s.counterpart t := by
  have cells : u.idAt? = t.idAt? := funext (idAt?_congr columns)
  unfold counterpart
  rw [cells]

namespace SameSize

theorem symm (size : SameSize s t) : SameSize t s :=
  ⟨size.laid', size.laid, size.width.symm, size.height.symm⟩

theorem congr (size : SameSize s t) (frame : SameFrame t u) (laid : u.Laid) : SameSize s u where
  laid := size.laid
  laid' := laid
  width := (congrArg List.length frame.columns).trans size.width
  height := frame.height.trans size.height

theorem isSome_idAt? (size : SameSize s t) (a : Address) : (t.idAt? a).isSome ↔ (s.idAt? a).isSome := by
  rw [size.laid'.isSome_idAt?, size.laid.isSome_idAt?, size.width, size.height]

theorem idAt?_eq_map (size : SameSize s t) (a : Address) :
    t.idAt? a = (s.idAt? a).map (s.counterpart t) := by
  cases here : s.idAt? a with
  | none =>
    have off := size.isSome_idAt? a
    rw [here] at off
    simpa using off
  | some id =>
    obtain ⟨id', there⟩ := Option.isSome_iff_exists.mp
      ((size.isSome_idAt? a).mpr (Option.isSome_of_eq_some here))
    unfold counterpart
    rw [Option.map_some, size.laid.addressOf_eq_some.mpr here, Option.bind_some, there,
      Option.getD_some]

theorem idAt?_counterpart (size : SameSize s t) (here : s.idAt? a = some id) :
    t.idAt? a = some (s.counterpart t id) := by
  rw [size.idAt?_eq_map, here, Option.map_some]

theorem counterpart_counterpart (size : SameSize s t) (live : (s.cells.get? id).isSome) :
    t.counterpart s (s.counterpart t id) = id := by
  obtain ⟨a, here⟩ := (size.laid.live id).mpr live
  have back := size.symm.idAt?_counterpart (size.idAt?_counterpart here)
  exact Option.some.inj (back.symm.trans here)

theorem rectangle_eq_map (size : SameSize s t) (a b : Address) :
    t.rectangle a b = (s.rectangle a b).map (s.counterpart t) := by
  simp only [rectangle, List.map_flatMap, List.map_filterMap, size.idAt?_eq_map]

theorem ofInput (size : SameSize s t) {raw : String} {f : Formula}
    (parsed : Formula.ofInput s.resolver raw = .ok f) :
    Formula.ofInput t.resolver raw = .ok (f.rename (s.counterpart t)) := by
  refine ofInput_carries parsed fun leaf _ => ?_
  cases leaf with
  | number | text | negate | binary => trivial
  | reference cell =>
    intro a found
    exact size.idAt?_counterpart found
  | range op first rest =>
    intro a b resolved
    obtain ⟨⟨onA, onB⟩, cells⟩ := resolver_range.mp resolved
    refine resolver_range.mpr ⟨⟨?_, ?_⟩, ?_⟩
    · exact (size.isSome_idAt? a).mpr onA
    · exact (size.isSome_idAt? b).mpr onB
    · rw [size.rectangle_eq_map, cells, List.map_cons]

end SameSize

/-! The same entries. -/

def entryAt? (s : Sheet) (a : Address) : Option (String × Formula) := (s.cellAt? a).map Cell.entry

theorem entryAt?_eq_some {entry : String × Formula} : s.entryAt? a = some entry ↔
    ∃ id c, s.idAt? a = some id ∧ s.cells.get? id = some c ∧ c.entry = entry := by
  unfold entryAt? cellAt?
  simp only [Option.map_eq_some_iff, Option.bind_eq_some_iff]
  constructor
  · rintro ⟨c, ⟨id, here, found⟩, same⟩
    exact ⟨id, c, here, found, same⟩
  · rintro ⟨id, c, here, found, same⟩
    exact ⟨c, ⟨id, here, found⟩, same⟩

theorem entryAt?_eq (here : s.idAt? a = some id) {c : Cell} (found : s.cells.get? id = some c) :
    s.entryAt? a = some c.entry :=
  entryAt?_eq_some.mpr ⟨id, c, here, found, rfl⟩

/-- On `t` stands the input of `s`, and the formula of `s` over the cells of `t`. -/
def CopiedAt (s t : Sheet) (a : Address) : Prop :=
  t.entryAt? a = (s.entryAt? a).map fun (raw, formula) => (raw, formula.rename (s.counterpart t))

theorem CopiedAt.exists_get? (copied : CopiedAt s t a) (size : SameSize s t)
    (here : s.idAt? a = some id) {c : Cell} (found : s.cells.get? id = some c) :
    ∃ d, t.cells.get? (s.counterpart t id) = some d ∧ d.raw = c.raw ∧
      d.formula = c.formula.rename (s.counterpart t) := by
  unfold CopiedAt at copied
  rw [entryAt?_eq here found, Option.map_some] at copied
  obtain ⟨id', d, there, found', same⟩ := entryAt?_eq_some.mp copied
  cases there.symm.trans (size.idAt?_counterpart here)
  obtain ⟨raw, formula⟩ := Prod.mk.inj same
  exact ⟨d, found', raw, formula⟩

theorem SameSize.valueOf_counterpart (size : SameSize s t) (sound : s.Sound)
    (current : ∀ id, t.Current id) (copied : ∀ a, (s.idAt? a).isSome → CopiedAt s t a)
    (live : (s.cells.get? id).isSome) :
    t.cells.valueOf (s.counterpart t id) = s.cells.valueOf id := by
  refine sound.valueOf_renamed current (D := fun _ => True) (fun _ _ _ _ => trivial) ?_ trivial live
  intro id c _ found
  obtain ⟨a, here⟩ := (size.laid.live id).mpr (Option.isSome_of_eq_some found)
  obtain ⟨d, found', -, formula⟩ :=
    (copied a (Option.isSome_of_eq_some here)).exists_get? size here found
  exact ⟨d, found', formula⟩

/-- What the cells hold, address by address. -/
theorem SameSize.raw_value_eq (size : SameSize s t) (sound : s.Sound)
    (current : ∀ id, t.Current id) (copied : ∀ a, (s.idAt? a).isSome → CopiedAt s t a)
    (a : Address) :
    (t.cellAt? a).map (fun c => (c.raw, c.value)) = (s.cellAt? a).map fun c => (c.raw, c.value) := by
  unfold cellAt?
  rw [size.idAt?_eq_map]
  cases here : s.idAt? a with
  | none => rfl
  | some id =>
    have live := size.laid.live_of_idAt? here
    obtain ⟨c, found⟩ := Option.isSome_iff_exists.mp live
    obtain ⟨d, found', raw, -⟩ :=
      (copied a (Option.isSome_of_eq_some here)).exists_get? size here found
    have value := size.valueOf_counterpart sound current copied live
    unfold CellStore.valueOf at value
    rw [found, found', Option.map_some, Option.map_some, Option.some.injEq] at value
    simp only [Option.map_some, Option.bind_some, found, found', raw, value]

end Spreadsheet.Sheet
