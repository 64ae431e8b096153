import Spreadsheet.Proofs.Counterparts
import Spreadsheet.Proofs.Insertion

/-! Lines that are inserted one after the other may be inserted in the other order: the sheets that
come out are the same but for the names of cells. -/
namespace Spreadsheet

namespace Address

theorem opened_opened_comm (a : Address) (axis : Axis) {i k : Nat} (h : i ≤ k) :
    (a.opened axis i).opened axis (k + 1) = (a.opened axis k).opened axis i := by
  cases axis with
  | row => exact congrArg (mk a.column) (stepOver_comm h a.row)
  | column => exact congrArg (mk · a.row) (stepOver_comm h a.column)

end Address

namespace Formula

variable {s t : Sheet} {f : Formula}

/-- Each range still starts with its first cell and ends with its last. -/
def KeepsEnds (s : Sheet) (f : Formula) : Prop :=
  ∀ op first rest, .range op first rest ∈ f.leaves → ∃ rest',
    s.span first rest = first :: rest' ∧ rest'.getLast?.getD first = rest.getLast?.getD first

theorem KeepsEnds.left {op : BinaryOp} {g : Formula} (h : KeepsEnds s (.binary op f g)) :
    f.KeepsEnds s :=
  fun op first rest member => h op first rest (List.mem_append_left _ member)

theorem KeepsEnds.right {op : BinaryOp} {g : Formula} (h : KeepsEnds s (.binary op f g)) :
    g.KeepsEnds s :=
  fun op first rest member => h op first rest (List.mem_append_right _ member)

theorem leaves_respan (s : Sheet) (f : Formula) : (f.respan s).leaves = f.leaves.map (respan s) := by
  induction f with
  | number | text | reference => rfl
  | range op first rest =>
    rw [show (range op first rest).leaves = [range op first rest] from rfl, List.map_singleton, respan]
    cases s.span first rest <;> rfl
  | negate operand ih => exact ih
  | binary op left right ihl ihr => simp only [respan, leaves, ihl, ihr, List.map_append]

theorem ends_respan (h : f.KeepsEnds s) : (f.respan s).ends = f.ends := by
  induction f with
  | number | text | reference => rfl
  | range op first rest =>
    obtain ⟨rest', cells, last⟩ := h op first rest (List.mem_singleton_self _)
    rw [respan, cells]
    simp only [range?, Option.getD_some, ends, last]
  | negate operand ih => exact ih h
  | binary op left right ihl ihr => simp only [respan, ends, ihl h.left, ihr h.right]

theorem span_eq_of_last {first : CellId} {rest rest' : List CellId}
    (last : rest'.getLast?.getD first = rest.getLast?.getD first) :
    s.span first rest' = s.span first rest := by
  unfold Sheet.span
  rw [last]

/-- What a range holds between its ends does not matter to what it takes in next. -/
theorem respan_respan (h : f.KeepsEnds s) (h' : f.KeepsEnds t) :
    (f.respan s).respan t = f.respan t := by
  induction f with
  | number | text | reference => rfl
  | range op first rest =>
    obtain ⟨rest', cells, last⟩ := h op first rest (List.mem_singleton_self _)
    obtain ⟨rest'', cells', -⟩ := h' op first rest (List.mem_singleton_self _)
    rw [respan, cells, range?, Option.getD_some, respan, respan, span_eq_of_last last, cells']
    rfl
  | negate operand ih => simp only [respan, ih h h']
  | binary op left right ihl ihr => simp only [respan, ihl h.left h'.left, ihr h.right h'.right]

theorem KeepsEnds.trans (h : f.KeepsEnds s) (h' : (f.respan s).KeepsEnds t) : f.KeepsEnds t := by
  intro op first rest member
  obtain ⟨rest', cells, last⟩ := h op first rest member
  have next : .range op first rest' ∈ (f.respan s).leaves := by
    rw [leaves_respan]
    refine List.mem_map.mpr ⟨_, member, ?_⟩
    rw [respan, cells]
    rfl
  obtain ⟨rest'', cells', last'⟩ := h' op first rest' next
  exact ⟨rest'', (span_eq_of_last last).symm.trans cells', last'.trans last⟩

/-- Under other names of the cells that it takes in. -/
theorem rename_respan {φ : CellId → CellId} (own : ∀ p ∈ f.cells, φ p = p)
    (spans : ∀ op first rest, .range op first rest ∈ f.leaves →
      t.span first rest = (s.span first rest).map φ) :
    (f.respan s).rename φ = f.respan t := by
  induction f with
  | number | text => rfl
  | reference cell => exact congrArg reference (own cell (List.mem_singleton_self _))
  | range op first rest =>
    have kept : rest.map φ = rest :=
      (List.map_congr_left fun p member => own p (List.mem_cons_of_mem _ member)).trans (List.map_id' _)
    rw [respan, respan, spans op first rest (List.mem_singleton_self _)]
    cases s.span first rest with
    | nil =>
      show range op (φ first) (rest.map φ) = range op first rest
      rw [own first List.mem_cons_self, kept]
    | cons head tail => rfl
  | negate operand ih => simp only [respan, rename, ih own spans]
  | binary op left right ihl ihr =>
    obtain ⟨ownLeft, ownRight⟩ := List.forall_mem_append.mp own
    have left := ihl ownLeft fun op first rest member =>
      spans op first rest (List.mem_append_left _ member)
    have right := ihr ownRight fun op first rest member =>
      spans op first rest (List.mem_append_right _ member)
    simp only [respan, rename, left, right]

end Formula

namespace Sheet
open Spreadsheet.Formula

variable {s t u v : Sheet} {axis axis' : Axis} {i j : Nat} {φ ψ : Address → Address} {p : CellId}
  {c : Cell}

/-- What stands in the cell once the cells of `s` are where `t` has them: it is written anew if the
end of a range or a reference has moved. -/
def inputOn (s t : Sheet) (c : Cell) : String :=
  if ∀ p ∈ c.formula.ends, t.addressOf p = s.addressOf p then c.raw
  else "=" ++ c.formula.render t.addressOf

theorem inputOn_congr (same : ∀ p ∈ c.formula.ends, u.addressOf p = t.addressOf p) :
    s.inputOn u c = s.inputOn t c := by
  unfold inputOn
  rw [render_congr same]
  congr 1
  exact propext (forall₂_congr fun p isEnd => by rw [same p isEnd])

/-- The cells of `s` are on `t`, each where `φ` moves its address, and what else is there is empty.
Formulas have followed the cells that they read. -/
structure Spread (s t : Sheet) (φ : Address → Address) : Prop where
  rises : ∀ a, a ≤ φ a
  places : ∀ a, t.idAt? (φ a) = s.idAt? a
  fresh : ∀ id c, t.cells.get? id = some c → s.cells.get? id = none → c.entry = Cell.empty.entry
  cells : ∀ id c, s.cells.get? id = some c → c.formula.KeepsEnds t ∧
    ∃ d, t.cells.get? id = some d ∧ d.entry = (s.inputOn t c, c.formula.respan t)

theorem Spread.addressOf_eq (spread : Spread s t φ) (laid : t.Laid) {a : Address}
    (here : s.idAt? a = some p) : t.addressOf p = some (φ a) :=
  laid.addressOf_eq_some.mpr ((spread.places a).trans here)

theorem Wired.exists_addressOf_end (wired : s.Wired) (laid : s.Laid) {id : CellId}
    (found : s.cells.get? id = some c) (isEnd : p ∈ c.formula.ends) : ∃ a, s.idAt? a = some p :=
  (laid.live p).mpr (wired.read_live id p (reads_iff.mpr
    ⟨c, found, mem_precedents.mpr (c.formula.ends_subset_cells isEnd)⟩))

section trans
variable (first : Spread s t φ) (second : Spread t u ψ) (wired : s.Wired) (laid : s.Laid)
  (laid' : t.Laid) (laid'' : u.Laid)
include first second laid laid' laid''

/-- A cell that has moved never comes back, since all moves rise. -/
theorem Spread.stays_of_back {a : Address} (here : s.idAt? a = some p)
    (back : u.addressOf p = s.addressOf p) : u.addressOf p = t.addressOf p := by
  have there := first.addressOf_eq laid' here
  have behind := second.addressOf_eq laid'' (idAt?_of_addressOf there)
  rw [behind, laid.addressOf_eq_some.mpr here, Option.some.injEq] at back
  have above := second.rises (φ a)
  rw [back] at above
  have fixed : φ a = a := Address.le_antisymm above (first.rises a)
  rw [behind, there, back, fixed]

include wired

/-- Two moves write what one move there writes. -/
theorem Spread.inputOn_eq {id : CellId} {d : Cell} (found : s.cells.get? id = some c)
    (keeps : c.formula.KeepsEnds t) (entry : d.entry = (s.inputOn t c, c.formula.respan t)) :
    t.inputOn u d = s.inputOn u c := by
  obtain ⟨raw, formula⟩ := Prod.mk.inj entry
  have text : d.formula.render u.addressOf = c.formula.render u.addressOf := by
    rw [formula]
    exact congrArg String.ofList (toChars_respan keeps)
  unfold inputOn
  rw [formula, ends_respan keeps, ← formula, text, raw]
  split
  · rename_i stay
    exact (inputOn_congr stay).symm
  · rename_i moved
    rw [if_neg]
    intro stay
    refine moved fun p isEnd => ?_
    obtain ⟨a, here⟩ := wired.exists_addressOf_end laid found isEnd
    exact first.stays_of_back second laid laid' laid'' here (stay p isEnd)

theorem Spread.trans : Spread s u (ψ ∘ φ) where
  rises a := Address.le_trans (first.rises a) (second.rises (φ a))
  places a := (second.places (φ a)).trans (first.places a)
  fresh := by
    intro id e found new
    cases between : t.cells.get? id with
    | none => exact second.fresh id e found between
    | some d =>
      obtain ⟨raw, formula⟩ := Cell.entry_eq.mp (first.fresh id d between new)
      obtain ⟨-, e', found', entry⟩ := second.cells id d between
      cases found.symm.trans found'
      rw [entry, inputOn, formula, if_pos (by rintro p ⟨⟩), raw]
      rfl
  cells := by
    intro id c found
    obtain ⟨keeps, d, between, entry⟩ := first.cells id c found
    obtain ⟨keeps', e, after, entry'⟩ := second.cells id d between
    have formula : d.formula = c.formula.respan t := congrArg Prod.snd entry
    rw [formula] at keeps'
    refine ⟨keeps.trans keeps', e, after, ?_⟩
    rw [entry', formula, respan_respan keeps (keeps.trans keeps'),
      first.inputOn_eq second wired laid laid' laid'' found keeps entry]

end trans

/-! One insertion. -/

/-- What is new has been put on the line, and holds nothing. -/
theorem Inserted.entry_of_new (inserted : Inserted s t axis i) (laid : s.Laid) (laid' : t.Laid)
    {id : CellId} {d : Cell} (found : t.cells.get? id = some d) (new : s.cells.get? id = none) :
    d.entry = Cell.empty.entry := by
  obtain ⟨a, here⟩ := (laid'.live id).mpr (Option.isSome_of_eq_some found)
  by_cases on : a.along axis = i
  · have within : a.across axis < s.lineLength axis := by
      have inside := laid'.isSome_idAt?.mp (Option.isSome_of_eq_some here)
      rw [← inserted.length]
      cases axis
      · exact inside.1
      · exact inside.2
    obtain ⟨id', d', here', -, found', raw, formula, -⟩ := inserted.fresh a on within
    cases here.symm.trans here'
    cases found.symm.trans found'
    exact Cell.entry_eq.mpr ⟨raw, formula⟩
  · obtain ⟨b, rfl⟩ := Address.exists_opened on
    rw [inserted.places] at here
    have old := laid.live_of_idAt? here
    rw [new] at old
    cases old

section insertLine
variable (sound : s.Sound) (small : s.Representable)
  (small' : (s.insertCells axis i).Representable) (inside : i ≤ s.lineCount axis)
include sound small small' inside

/-- What is old is written anew if an end has moved, and its ranges keep their ends. -/
theorem Sound.entry_insertLine (found : s.cells.get? p = some c) :
    c.formula.KeepsEnds (s.insertLine axis i).sheet ∧
      ∃ d, (s.insertLine axis i).sheet.cells.get? p = some d ∧
        d.entry = (s.inputOn (s.insertLine axis i).sheet c,
          c.formula.respan (s.insertLine axis i).sheet) := by
  have changed := sound.changed_insertCells small small' inside
  have between : (s.insertCells axis i).cells.get? p = some c := get?_insertCells_of_live found
  have shifted : Shifted s (s.insertCells axis i) axis i := .inl opens_insertCells
  obtain ⟨d, after, follows⟩ := (sound.inserted small small' inside).cells p c found
  rw [insertLine_of_le inside] at after follows ⊢
  have columns := (sameFrame_reflow (s.insertCells axis i) s.addressOf).columns
  have keeps : c.formula.KeepsEnds ((s.insertCells axis i).reflow s.addressOf).sheet := by
    intro op first rest member
    rw [span_congr columns]
    exact changed.span_eq_cons shifted between member
  have stays := changed.stays_iff shifted between
  rw [← addressOf_congr columns] at stays
  refine ⟨keeps, d, after, Prod.ext ?_ follows.formula⟩
  show d.raw = _
  unfold inputOn
  split
  · rename_i stay
    exact follows.kept (stays.mpr stay)
  · rename_i moved
    rw [follows.rewritten (by simpa using mt stays.mp moved), follows.formula]
    exact congrArg ("=" ++ ·) (congrArg String.ofList (toChars_respan keeps))

theorem Sound.spread_insertLine : Spread s (s.insertLine axis i).sheet (Address.opened axis i) where
  rises := Address.le_opened axis i
  places := (sound.inserted small small' inside).places
  fresh _ _ found new := (sound.inserted small small' inside).entry_of_new sound.laid
    (sound.insertLine small small' inside).2.laid found new
  cells _ _ found := sound.entry_insertLine small small' inside found

end insertLine

/-! Two sheets on which the cells of one are spread alike. -/

/-- The same sheet but for the names of cells. -/
structure Renamed (s t : Sheet) : Prop where
  width : t.width = s.width
  height : t.height = s.height
  values : ∀ a, (t.cellAt? a).map Cell.value = (s.cellAt? a).map Cell.value
  copied : ∀ a, CopiedAt s t a

section alike
variable (left : Spread s u φ) (right : Spread s v φ) (size : SameSize u v)
include left right size

theorem Spread.counterpart_eq_self {a : Address} (here : s.idAt? a = some p) :
    u.counterpart v p = p := by
  have there := size.idAt?_counterpart ((left.places a).trans here)
  rw [right.places, here, Option.some.injEq] at there
  exact there.symm

theorem Spread.rename_respan (laid : s.Laid) (wired : s.Wired) {id : CellId}
    (found : s.cells.get? id = some c) :
    (c.formula.respan u).rename (u.counterpart v) = c.formula.respan v := by
  refine Formula.rename_respan (fun p read => ?_) fun op first rest member => ?_
  · have live := wired.read_live id p (reads_iff.mpr ⟨c, found, mem_precedents.mpr read⟩)
    obtain ⟨b, place⟩ := (laid.live p).mpr live
    exact left.counterpart_eq_self right size place
  · have corner {p : CellId} (isEnd : p ∈ (Formula.range op first rest).ends) :
        v.position p = u.position p := by
      unfold position
      obtain ⟨b, place⟩ := wired.exists_addressOf_end laid found
        (ends_subset_of_mem_leaves member isEnd)
      rw [left.addressOf_eq size.laid place, right.addressOf_eq size.laid' place]
    unfold span
    rw [corner (by simp [ends]), corner (by simp [ends]), size.rectangle_eq_map]

/-- Else the place of its counterpart on `s` would be its own. -/
theorem Spread.counterpart_eq_none (laid : s.Laid) {a : Address} {id : CellId}
    (here : u.idAt? a = some id) (new : s.cells.get? id = none) :
    s.cells.get? (u.counterpart v id) = none := by
  by_contra live
  obtain ⟨b, place⟩ := (laid.live _).mpr (Option.isSome_iff_ne_none.mpr live)
  have same := size.laid'.unique _ _ _ (size.idAt?_counterpart here) ((right.places b).trans place)
  rw [same, left.places, place, Option.some.injEq] at here
  rw [here, new] at live
  exact live rfl

/-- Cells of `s` are under their own names on both, and what else is there is empty on both. -/
theorem Spread.copiedAt (wired : s.Wired) (laid : s.Laid) (a : Address) : CopiedAt u v a := by
  unfold CopiedAt
  cases here : u.idAt? a with
  | none =>
    have off := size.idAt?_eq_map a
    rw [here, Option.map_none] at off
    simp only [entryAt?, cellAt?, here, off, Option.bind_none, Option.map_none]
  | some id =>
    have there := size.idAt?_counterpart here
    obtain ⟨d, found⟩ := size.laid.exists_get? here
    obtain ⟨d', found'⟩ := size.laid'.exists_get? there
    rw [entryAt?_eq here found, entryAt?_eq there found', Option.map_some]
    cases old : s.cells.get? id with
    | some c =>
      obtain ⟨b, place⟩ := (laid.live id).mpr (Option.isSome_of_eq_some old)
      rw [left.counterpart_eq_self right size place] at found'
      obtain ⟨-, e, onLeft, entry⟩ := left.cells id c old
      obtain ⟨-, e', onRight, entry'⟩ := right.cells id c old
      cases found.symm.trans onLeft
      cases found'.symm.trans onRight
      have input : s.inputOn v c = s.inputOn u c := by
        refine inputOn_congr fun p isEnd => ?_
        obtain ⟨b, place⟩ := wired.exists_addressOf_end laid old isEnd
        rw [left.addressOf_eq size.laid place, right.addressOf_eq size.laid' place]
      rw [entry', entry, input, ← left.rename_respan right size laid wired old]
    | none =>
      have new := left.counterpart_eq_none right size laid here old
      rw [left.fresh id d found old, right.fresh _ d' found' new]
      rfl

theorem Spread.renamed (sound : s.Sound) (sound' : u.Sound) (sound'' : v.Sound) : Renamed u v where
  width := size.width
  height := size.height
  values := by
    intro a
    have contents := congrArg (Option.map Prod.snd) (size.raw_value_eq sound' sound''.current
      (fun a _ => left.copiedAt right size sound.wired sound.laid a) a)
    rw [Option.map_map, Option.map_map] at contents
    exact contents
  copied := left.copiedAt right size sound.wired sound.laid

end alike

/-! Two insertions. -/

theorem Inserted.lineCount_eq (inserted : Inserted s t axis i) (other : Axis) :
    t.lineCount other = s.lineCount other + if other = axis then 1 else 0 := by
  cases axis with
  | row =>
    cases other
    · exact inserted.count
    · exact inserted.length
  | column =>
    cases other
    · exact inserted.length
    · exact inserted.count

theorem insertLine_insertLine (reachable : s.Reachable) {o o' : Outcome Unit}
    (inside : i ≤ s.lineCount axis) (returns : s.Returns (.insertLine axis i) o)
    (inside' : j ≤ s.lineCount axis' + if axis' = axis then 1 else 0)
    (returns' : o.sheet.Returns (.insertLine axis' j) o') :
    o'.result = .ok () ∧ o'.sheet.Sound ∧
      Spread s o'.sheet (fun a => (a.opened axis i).opened axis' j) ∧
      ∀ other, o'.sheet.lineCount other =
        s.lineCount other + (if other = axis then 1 else 0) + if other = axis' then 1 else 0 := by
  have reachable' : o.sheet.Reachable := .step reachable returns
  have inserted := (insertLine_inserted reachable inside returns).2
  rw [← inserted.lineCount_eq] at inside'
  obtain ⟨ok, inserted'⟩ := insertLine_inserted reachable' inside' returns'
  have sound := reachable.sound
  have sound' := reachable'.sound
  have sound'' := (Reachable.step reachable' returns').sound
  obtain ⟨rfl, small⟩ := returns
  obtain ⟨rfl, small'⟩ := returns'
  have first := sound.spread_insertLine reachable.representable (small.of_insertLine inside) inside
  have second := sound'.spread_insertLine small (small'.of_insertLine inside') inside'
  refine ⟨ok, sound'', first.trans second sound.wired sound.laid sound'.laid sound''.laid, ?_⟩
  intro other
  rw [inserted'.lineCount_eq, inserted.lineCount_eq]

/-- In either order, if addresses move alike. -/
theorem renamed_of_opened_comm (reachable : s.Reachable) {i' j' : Nat} {o o' r r' : Outcome Unit}
    (inside : i ≤ s.lineCount axis) (returns : s.Returns (.insertLine axis i) o)
    (inside' : j ≤ s.lineCount axis' + if axis' = axis then 1 else 0)
    (returns' : o.sheet.Returns (.insertLine axis' j) o')
    (within : j' ≤ s.lineCount axis') (yields : s.Returns (.insertLine axis' j') r)
    (within' : i' ≤ s.lineCount axis + if axis = axis' then 1 else 0)
    (yields' : r.sheet.Returns (.insertLine axis i') r')
    (comm : ∀ a : Address, (a.opened axis i).opened axis' j = (a.opened axis' j').opened axis i') :
    o'.result = .ok () ∧ r'.result = .ok () ∧ Renamed o'.sheet r'.sheet := by
  obtain ⟨ok, sound, spread, counts⟩ :=
    insertLine_insertLine reachable inside returns inside' returns'
  obtain ⟨ok', sound', spread', counts'⟩ :=
    insertLine_insertLine reachable within yields within' yields'
  rw [← funext comm] at spread'
  have same (other : Axis) : r'.sheet.lineCount other = o'.sheet.lineCount other := by
    rw [counts, counts']
    omega
  have size : SameSize o'.sheet r'.sheet := ⟨sound.laid, sound'.laid, same .column, same .row⟩
  exact ⟨ok, ok', spread.renamed spread' size reachable.sound sound sound'⟩

/-- A row and a column, or two lines of one axis: the line that is further on stands one further
once the other is there. -/
theorem insertLine_comm (reachable : s.Reachable) :
    (∀ i j o o' r r', i ≤ s.height → j ≤ s.width →
      s.Returns (.insertLine .row i) o → o.sheet.Returns (.insertLine .column j) o' →
      s.Returns (.insertLine .column j) r → r.sheet.Returns (.insertLine .row i) r' →
      o'.result = .ok () ∧ r'.result = .ok () ∧ Renamed o'.sheet r'.sheet) ∧
    ∀ axis i k o o' r r', i ≤ k → k ≤ s.lineCount axis →
      s.Returns (.insertLine axis i) o → o.sheet.Returns (.insertLine axis (k + 1)) o' →
      s.Returns (.insertLine axis k) r → r.sheet.Returns (.insertLine axis i) r' →
      o'.result = .ok () ∧ r'.result = .ok () ∧ Renamed o'.sheet r'.sheet := by
  constructor
  · intro i j o o' r r' row column returns returns' yields yields'
    exact renamed_of_opened_comm reachable row returns column returns' column yields row yields'
      fun _ => rfl
  · intro axis i k o o' r r' behind inside returns returns' yields yields'
    refine renamed_of_opened_comm reachable (behind.trans inside) returns ?_ returns' inside yields
      ?_ yields' fun a => a.opened_opened_comm axis behind
    · rw [if_pos rfl]
      exact Nat.succ_le_succ inside
    · exact (behind.trans inside).trans (Nat.le_add_right _ _)

/-- The range of `B3` grows twice, in its two directions or in one of them. -/
theorem insertLine_comm_sample :
    Renamed ((sample.apply (.insertLine .row 1)).sheet.apply (.insertLine .column 0)).sheet
      ((sample.apply (.insertLine .column 0)).sheet.apply (.insertLine .row 1)).sheet ∧
    Renamed ((sample.apply (.insertLine .row 1)).sheet.apply (.insertLine .row 3)).sheet
      ((sample.apply (.insertLine .row 2)).sheet.apply (.insertLine .row 1)).sheet := by
  obtain ⟨crossing, parallel⟩ := insertLine_comm reachable_sample
  constructor
  · refine (crossing 1 0 _ _ _ _ ?_ ?_ ⟨rfl, ?_⟩ ⟨rfl, ?_⟩ ⟨rfl, ?_⟩ ⟨rfl, ?_⟩).2.2
    all_goals decide +kernel
  · refine (parallel .row 1 2 _ _ _ _ ?_ ?_ ⟨rfl, ?_⟩ ⟨rfl, ?_⟩ ⟨rfl, ?_⟩ ⟨rfl, ?_⟩).2.2
    all_goals decide +kernel

end Sheet
end Spreadsheet
