import Spreadsheet.Proofs.Reflow

/-! What every operation keeps up, and why none fails halfway. -/
namespace Spreadsheet.Sheet
open Spreadsheet.Formula

variable {s t : Sheet} {axis : Axis} {i : Nat}

structure Sound (s : Sheet) : Prop where
  laid : s.Laid
  wired : s.Wired
  acyclic : s.Acyclic
  fitting : s.Fitting
  current : ∀ id, s.Current id

/-- Formulas that read each other in no cycle determine the values: where two sheets have the same
formulas but for the names of the cells, they have the same values. -/
theorem Sound.valueOf_renamed (sound : s.Sound) (current : ∀ id, t.Current id) {φ : CellId → CellId}
    {D : CellId → Prop} (closed : ∀ c p, D c → s.Reads c p → D p)
    (renamed : ∀ id c, D id → s.cells.get? id = some c →
      ∃ d, t.cells.get? (φ id) = some d ∧ d.formula = c.formula.rename φ)
    {id : CellId} (inside : D id) (live : (s.cells.get? id).isSome) :
    t.cells.valueOf (φ id) = s.cells.valueOf id := by
  -- By what the cells read, since two formulas agree once the cells that they read do.
  induction id using (sound.acyclic.wellFounded_reads sound.wired).induction with
  | _ id ih =>
    obtain ⟨c, found⟩ := Option.isSome_iff_exists.mp live
    obtain ⟨d, found', formula⟩ := renamed id c inside found
    have precedents : ∀ p ∈ c.formula.precedents, t.cells.valueOf (φ p) = s.cells.valueOf p := by
      intro p read
      have reads : s.Reads id p := reads_iff.mpr ⟨c, found, read⟩
      exact ih p reads (closed id p inside reads) (sound.wired.read_live id p reads)
    have value : d.value = c.value := by
      rw [current _ d found', formula, evaluate_rename, evaluate_congr precedents]
      exact (sound.current id c found).symm
    unfold CellStore.valueOf
    rw [found, found', Option.map_some, Option.map_some, value]

/-- Cells keep their values where they and all that they read keep their formulas. -/
theorem Sound.valueOf_kept (sound : s.Sound) (current : ∀ id, t.Current id) (D : CellId → Prop)
    (closed : ∀ c p, D c → s.Reads c p → D p)
    (kept : ∀ id c, D id → s.cells.get? id = some c →
      ∃ d, t.cells.get? id = some d ∧ d.formula = c.formula)
    {p : CellId} (inside : D p) (live : (s.cells.get? p).isSome) :
    t.cells.valueOf p = s.cells.valueOf p := by
  refine sound.valueOf_renamed current (φ := id) closed (fun q c inside found => ?_) inside live
  obtain ⟨d, after, formula⟩ := kept q c inside found
  exact ⟨d, after, formula.trans rename_id.symm⟩

theorem Fitting.congr (fitting : s.Fitting) (h : Alike Cell.formula s t) : t.Fitting := by
  intro id d found
  obtain ⟨c, before, same⟩ := h.exists_get? found
  unfold FitsOn
  rw [same, resolver_congr h.columns]
  exact fitting id c before

/-- New values, once they are all right. -/
theorem Sound.of_revalued (laid : s.Laid) (wired : s.Wired) (acyclic : s.Acyclic)
    (fitting : s.Fitting) (h : Revalued s t) (current : ∀ id, t.Current id) : t.Sound :=
  ⟨laid.alike h.formulas, wired.revalued h, acyclic.alike h.formulas, fitting.congr h.formulas,
    current⟩

/-! The empty sheet. -/

theorem width_ofSize (width height : Nat) : (ofSize width height).width = width := by
  unfold Sheet.width ofSize
  rw [List.length_map, List.length_range]

theorem get?_ofSize (width height : Nat) (id : CellId) : (ofSize width height).cells.get? id =
    if id.index < width * height then some .empty else none := by
  simp only [ofSize, CellStore.get?_allocate]
  simp

theorem idAt?_ofSize {width height : Nat} {a : Address} {id : CellId} :
    (ofSize width height).idAt? a = some id ↔
      a.column < width ∧ a.row < height ∧ id.index = a.column * height + a.row := by
  obtain ⟨index⟩ := id
  simp only [idAt?_eq_some, ofSize, List.getElem?_map, Option.map_eq_some_iff,
    List.getElem?_eq_some_iff, List.length_range, List.getElem_range]
  constructor
  · rintro ⟨-, ⟨c, ⟨insideColumn, rfl⟩, rfl⟩, found⟩
    simp only [List.getElem_map, List.getElem_range, List.length_map, List.length_range] at found
    obtain ⟨insideRow, same⟩ := found
    cases same
    exact ⟨insideColumn, insideRow, rfl⟩
  · rintro ⟨insideColumn, insideRow, same⟩
    cases same
    exact ⟨_, ⟨_, ⟨insideColumn, rfl⟩, rfl⟩, by simpa using insideRow, by simp⟩

theorem laid_ofSize (width height : Nat) : (ofSize width height).Laid where
  height := by
    intro column member
    obtain ⟨c, -, rfl⟩ := List.mem_map.mp member
    simp [ofSize]
  unique := by
    intro a b id ha hb
    obtain ⟨-, insideA, indexA⟩ := idAt?_ofSize.mp ha
    obtain ⟨-, insideB, indexB⟩ := idAt?_ofSize.mp hb
    have same : a.column * height + a.row = b.column * height + b.row := indexA.symm.trans indexB
    have rows := congrArg (· % height) same
    simp only [Nat.mul_add_mod_self_right, Nat.mod_eq_of_lt insideA, Nat.mod_eq_of_lt insideB] at rows
    have columns : a.column * height = b.column * height := by omega
    exact @Address.ext_along .row a b rows
      (Nat.eq_of_mul_eq_mul_right (Nat.zero_lt_of_lt insideA) columns)
  live := by
    intro id
    rw [get?_ofSize]
    constructor
    · rintro ⟨a, found⟩
      obtain ⟨insideColumn, insideRow, index⟩ := idAt?_ofSize.mp found
      have bound : a.column * height + height ≤ width * height := by
        rw [← Nat.succ_mul]
        exact Nat.mul_le_mul_right height insideColumn
      rw [if_pos (by omega)]
      rfl
    · intro live
      split at live
      · rename_i inside
        have positive : 0 < height := Nat.pos_of_mul_pos_left (Nat.zero_lt_of_lt inside)
        refine ⟨⟨id.index / height, id.index % height⟩, idAt?_ofSize.mpr ⟨?_, ?_, ?_⟩⟩
        · exact (Nat.div_lt_iff_lt_mul positive).mpr inside
        · exact Nat.mod_lt _ positive
        · rw [Nat.mul_comm]
          exact (Nat.div_add_mod _ _).symm
      · cases live

theorem empty_of_get?_ofSize {width height : Nat} {id : CellId} {c : Cell}
    (found : (ofSize width height).cells.get? id = some c) : c = .empty := by
  rw [get?_ofSize] at found
  split at found
  · exact (Option.some.inj found).symm
  · cases found

theorem not_reads_ofSize {width height : Nat} {c p : CellId} : ¬ (ofSize width height).Reads c p := by
  intro reads
  obtain ⟨cell, found, read⟩ := reads_iff.mp reads
  rw [empty_of_get?_ofSize found] at read
  cases read

theorem wired_ofSize (width height : Nat) : (ofSize width height).Wired where
  readers := by
    intro p cell c found
    rw [empty_of_get?_ofSize found]
    simp [Cell.empty, not_reads_ofSize]
  watchers := by
    intro p cell l found
    rw [empty_of_get?_ofSize found]
    simp [Cell.empty, ofSize]
  nodup := by
    intro p cell found
    rw [empty_of_get?_ofSize found]
    exact List.nodup_nil
  read_live := fun c p reads => absurd reads not_reads_ofSize
  watched_live := by simp [ofSize]
  numbers := by simp [ofSize]
  keys := List.nodup_nil

theorem sound_ofSize (width height : Nat) : (ofSize width height).Sound where
  laid := laid_ofSize width height
  wired := wired_ofSize width height
  acyclic := by
    intro c cycle
    obtain ⟨p, reads, -⟩ := Relation.TransGen.head'_iff.mp cycle
    exact not_reads_ofSize reads
  fitting := by
    intro id c found
    rw [empty_of_get?_ofSize found]
    exact .inl ⟨"", rfl⟩
  current := by
    intro id c found
    rw [empty_of_get?_ofSize found]
    rfl

/-! Inputs. -/

theorem Sound.storeInput (sound : s.Sound) {a : Address} {raw : String} {id : CellId}
    {formula : Formula} {order : List CellId}
    (prepared : s.prepareInput a raw = .ok (id, formula, order)) :
    (s.storeInput id raw formula).Laid ∧ (s.storeInput id raw formula).Wired ∧
      (s.storeInput id raw formula).Acyclic ∧ (s.storeInput id raw formula).Fitting := by
  obtain ⟨found, parsed, walked, free⟩ := prepareInput_eq_ok prepared
  have live := sound.laid.live_of_idAt? found
  have fits : formula.FitsOn s := ofInput_fits parsed
  have frame := sameFrame_adopt s id raw formula
    fun _ => formula.evaluate (s.rewire id formula.precedents).cells.valueOf
  rw [storeInput_eq_adopt]
  refine ⟨sound.laid.congr frame.columns frame.height isSome_get?_adopt,
    sound.wired.adopt live (live_of_fitsOn sound.laid fits),
    sound.acyclic.adopt sound.wired live walked free, ?_⟩
  intro q d found
  unfold FitsOn
  rw [resolver_congr frame.columns]
  rw [get?_adopt] at found
  obtain ⟨c, before, rfl⟩ := Option.map_eq_some_iff.mp found
  by_cases same : q = id
  · simp only [if_pos same, Cell.store]
    exact fits
  · simp only [if_neg same, Cell.formula_relink]
    exact sound.fitting q c before

theorem setInput_of_error {a : Address} {raw : String} {e : SheetError}
    (refused : s.prepareInput a raw = .error e) : s.setInput a raw = s.failed e := by
  unfold setInput
  rw [refused]

theorem setInput_of_prepared {a : Address} {raw : String} {id : CellId} {formula : Formula}
    {order : List CellId} (prepared : s.prepareInput a raw = .ok (id, formula, order)) :
    (s.setInput a raw).result = .ok () ∧
      (s.setInput a raw).sheet = order.tail.foldl recompute (s.storeInput id raw formula) := by
  unfold setInput
  rw [prepared]
  exact ⟨rfl, refresh_sheet _ _⟩

theorem setInput_cases (s : Sheet) (a : Address) (raw : String) : (s.setInput a raw).sheet = s ∨
    ∃ id formula order, s.prepareInput a raw = .ok (id, formula, order) ∧
      (s.setInput a raw).sheet = order.tail.foldl recompute (s.storeInput id raw formula) := by
  cases prepared : s.prepareInput a raw with
  | error e => exact .inl (congrArg Outcome.sheet (setInput_of_error prepared))
  | ok result => exact .inr ⟨_, _, _, rfl, (setInput_of_prepared prepared).2⟩

theorem prepareInput_of_refused {a : Address} {raw : String} {e : SheetError}
    (refused : (s.setInput a raw).result = .error e) : s.prepareInput a raw = .error e := by
  cases prepared : s.prepareInput a raw with
  | error e' =>
    rw [setInput_of_error prepared] at refused
    cases refused
    rfl
  | ok result =>
    rw [(setInput_of_prepared prepared).1] at refused
    cases refused

theorem Sound.setInput (sound : s.Sound) (a : Address) (raw : String) :
    (s.setInput a raw).sheet.Sound := by
  rcases s.setInput_cases a raw with same | ⟨id, formula, order, prepared, same⟩
  · rw [same]
    exact sound
  · obtain ⟨laid, wired, acyclic, fitting⟩ := sound.storeInput prepared
    rw [same]
    exact .of_revalued laid wired acyclic fitting (revalued_foldl_recompute _ _)
      (current_setInput sound.wired sound.laid sound.current prepared wired acyclic)

/-! Listeners. -/

/-- What a cell holds, whoever watches it. -/
def contents (c : Cell) : Formula × Value := (c.formula, c.value)

theorem Current.alike {id : CellId} (current : s.Current id) (h : Alike contents s t) :
    t.Current id := by
  intro d found
  obtain ⟨c, before, same⟩ := h.exists_get? found
  have values : t.cells.valueOf = s.cells.valueOf := by
    funext q
    have value := congrArg (Option.map Prod.snd) (h.cells q)
    rw [Option.map_map, Option.map_map] at value
    exact value
  obtain ⟨formula, value⟩ := Prod.mk.injEq .. ▸ same
  rw [formula, value, values]
  exact current c before

theorem Sound.alike (sound : s.Sound) (h : Alike contents s t) (wired : t.Wired) : t.Sound := by
  have formulas : Alike Cell.formula s t := h.comp (f := Prod.fst)
  exact ⟨sound.laid.alike h, wired, sound.acyclic.alike formulas, sound.fitting.congr formulas,
    fun id => (sound.current id).alike h⟩

theorem alike_modifyCell {α : Type} {view : Cell → α} {id : CellId} {f : Cell → Cell}
    (keeps : ∀ c, view (f c) = view c) : Alike view s (s.modifyCell id f) := by
  refine ⟨rfl, rfl, fun q => ?_⟩
  rw [get?_modifyCell, Option.map_map]
  apply Option.map_congr
  intro c _
  simp only [Function.comp_apply]
  split
  · exact keeps c
  · rfl

theorem Sound.subscribe (sound : s.Sound) (a : Address) : (s.subscribe a).sheet.Sound := by
  have wired := sound.wired.subscribe sound.laid a
  unfold Sheet.subscribe at wired ⊢
  cases found : s.idAt a with
  | error e => exact sound
  | ok id =>
    rw [found] at wired
    have same : Alike contents s (s.modifyCell id (·.attach (.listener ⟨s.nextListener⟩))) :=
      alike_modifyCell fun c => by simp [contents]
    exact sound.alike ⟨same.columns, same.height, same.cells⟩ wired

theorem Sound.unsubscribe (sound : s.Sound) (l : ListenerId) : (s.unsubscribe l).sheet.Sound := by
  have wired := sound.wired.unsubscribe l
  unfold Sheet.unsubscribe at wired ⊢
  cases found : s.listeners.find? (·.1 == l) with
  | none => exact sound
  | some entry =>
    obtain ⟨l', id⟩ := entry
    rw [found] at wired
    have same : Alike contents s (s.modifyCell id (·.detach (.listener l))) :=
      alike_modifyCell fun c => rfl
    exact sound.alike ⟨same.columns, same.height, same.cells⟩ wired

/-! Recalculation, on its own and after a change of shape. -/

theorem Sound.recalculate (sound : s.Sound) :
    s.recalculate.result = .ok () ∧ s.recalculate.sheet.Sound := by
  obtain ⟨ok, revalued, current⟩ := recalculate_ok sound.wired sound.acyclic
  exact ⟨ok, .of_revalued sound.laid sound.wired sound.acyclic sound.fitting revalued current⟩

theorem Changed.sound (h : Changed s t) : (t.reflow s.addressOf).result = .ok () ∧
    (t.reflow s.addressOf).sheet.Sound := by
  obtain ⟨u, -, laid, wired, acyclic, fitting, same⟩ := h.reflow
  obtain ⟨ok, revalued, current⟩ := recalculate_ok wired acyclic
  rw [same]
  exact ⟨ok, .of_revalued laid wired acyclic fitting revalued current⟩

theorem Sound.changed_insertCells (sound : s.Sound) (small : s.Representable)
    (small' : (s.insertCells axis i).Representable) (inside : i ≤ s.lineCount axis) :
    Changed s (s.insertCells axis i) where
  laid := sound.laid
  laid' := sound.laid.insertCells inside
  wired' := sound.wired.insertCells
  acyclic' := sound.acyclic.insertCells
  small := small
  small' := small'
  fitting := sound.fitting
  reshaped := reshaped_insertCells sound.laid inside
  formulas := by
    intro id c found
    rw [cells_insertCells] at found
    rcases CellStore.exists_of_get?_allocate found with old | ⟨rfl, new, -⟩
    · exact .inl ⟨c, old, rfl⟩
    · exact .inr ⟨new, rfl⟩

/-- Nothing on the line is read from off it. -/
def LineUnread (s : Sheet) (axis : Axis) (i : Nat) : Prop :=
  ∀ c p, s.Reads c p → p ∈ s.line axis i → c ∈ s.line axis i

theorem Representable.deleteCells (small : s.Representable) : (s.deleteCells axis i).Representable := by
  have frame := sameFrame_foldl_rewire_nil (s.line axis i) s
  have width := small.width
  have height := small.height
  cases axis with
  | row =>
    constructor
    · simp only [Sheet.deleteCells, Sheet.width, frame.columns, List.length_map]
      exact width
    · simp only [Sheet.deleteCells, frame.height]
      omega
  | column =>
    constructor
    · simp only [Sheet.deleteCells, Sheet.width, frame.columns]
      exact Nat.lt_of_le_of_lt (List.length_eraseIdx_le _ _) width
    · simp only [Sheet.deleteCells, frame.height]
      exact height

theorem Sound.changed_deleteCells (sound : s.Sound) (small : s.Representable)
    (inside : i < s.lineCount axis) (unread : s.LineUnread axis i) :
    Changed s (s.deleteCells axis i) where
  laid := sound.laid
  laid' := sound.laid.deleteCells sound.wired inside
  wired' := sound.wired.deleteCells unread
  acyclic' := sound.acyclic.deleteCells sound.wired
  small := small
  small' := small.deleteCells
  fitting := sound.fitting
  reshaped := reshaped_deleteCells sound.laid
  formulas := by
    intro id c found
    rw [get?_deleteCells sound.wired] at found
    split at found
    · cases found
    · obtain ⟨d, before, rfl⟩ := Option.map_eq_some_iff.mp found
      exact .inl ⟨d, before, Cell.formula_dropReaders _ d⟩

theorem Wired.readFromOutside?_eq_none (wired : s.Wired) :
    s.readFromOutside? (s.line axis i) = none ↔ s.LineUnread axis i := by
  unfold readFromOutside? LineUnread
  simp only [List.findSome?_eq_none_iff, Option.map_eq_none_iff, List.find?_eq_none,
    wired.mem_dependents, decide_not, Bool.not_eq_true', decide_eq_false_iff_not, not_not]
  exact ⟨fun h c p reads on => h p on c reads, fun h p on c reads => h c p reads on⟩

theorem Wired.readFromOutside?_eq_some (wired : s.Wired) {p c : CellId}
    (h : s.readFromOutside? (s.line axis i) = some (p, c)) :
    p ∈ s.line axis i ∧ c ∉ s.line axis i ∧ s.Reads c p := by
  obtain ⟨q, on, found⟩ := List.exists_of_findSome?_eq_some h
  obtain ⟨d, reader, same⟩ := Option.map_eq_some_iff.mp found
  cases same
  have off := List.find?_some reader
  exact ⟨on, by simpa using off, wired.mem_dependents.mp (List.mem_of_find?_eq_some reader)⟩

theorem insertLine_of_le (inside : i ≤ s.lineCount axis) :
    s.insertLine axis i = (s.insertCells axis i).reflow s.addressOf := by
  unfold insertLine
  rw [if_neg (Nat.not_lt.mpr inside)]

theorem Wired.deleteLine_of_unread (wired : s.Wired) (inside : i < s.lineCount axis)
    (unread : s.LineUnread axis i) :
    s.deleteLine axis i = (s.deleteCells axis i).reflow s.addressOf := by
  unfold deleteLine
  rw [if_neg (Nat.not_le.mpr inside), wired.readFromOutside?_eq_none.mpr unread]

theorem Sound.insertLine (sound : s.Sound) (small : s.Representable)
    (small' : (s.insertCells axis i).Representable) (inside : i ≤ s.lineCount axis) :
    (s.insertLine axis i).result = .ok () ∧ (s.insertLine axis i).sheet.Sound := by
  rw [insertLine_of_le inside]
  exact (sound.changed_insertCells small small' inside).sound

theorem Sound.deleteLine (sound : s.Sound) (small : s.Representable) (inside : i < s.lineCount axis)
    (unread : s.LineUnread axis i) :
    (s.deleteLine axis i).result = .ok () ∧ (s.deleteLine axis i).sheet.Sound := by
  rw [sound.wired.deleteLine_of_unread inside unread]
  exact (sound.changed_deleteCells small inside unread).sound

end Spreadsheet.Sheet
