import Spreadsheet.Proofs.Counterparts
import Spreadsheet.Proofs.CycleCheck

/-! A sheet typed anew, address by address in any order, is the sheet that was copied. -/
namespace Spreadsheet.Sheet
open Relation

variable {s t : Sheet} {a : Address} {done : Set Address}

/-- Type what stands on `s` at each of the addresses into `t`, one after the other. -/
def retype (s : Sheet) : List Address → Sheet → Except SheetError Sheet
  | [], t => .ok t
  | a :: rest, t => do
    let cell ← s.cellAt a
    let typed := t.setInput a cell.raw
    typed.result
    s.retype rest typed.sheet

/-- `t` is `s` as far as it has been typed, and empty elsewhere. -/
structure Draft (s : Sheet) (done : Set Address) (t : Sheet) : Prop where
  size : SameSize s t
  sound : t.Sound
  copied : ∀ a ∈ done, CopiedAt s t a
  blank : ∀ a ∉ done, ∀ entry, t.entryAt? a = some entry → entry = Cell.empty.entry

theorem draft_ofSize (laid : s.Laid) : Draft s ∅ (ofSize s.width s.height) where
  size := ⟨laid, laid_ofSize _ _, width_ofSize _ _, rfl⟩
  sound := sound_ofSize _ _
  copied := by simp
  blank := by
    intro a _ entry typed
    obtain ⟨id, c, -, found, rfl⟩ := entryAt?_eq_some.mp typed
    rw [empty_of_get?_ofSize found]

/-- What a draft has of the formulas of `s` reads no more than they do. -/
theorem Draft.reads (draft : Draft s done t) {c p : CellId} (reads : t.Reads c p)
    (sound : s.Sound) : s.Reads (t.counterpart s c) (t.counterpart s p) := by
  obtain ⟨d, found, read⟩ := reads_iff.mp reads
  obtain ⟨a, there⟩ := (draft.size.laid'.live c).mpr (Option.isSome_of_eq_some found)
  by_cases typed : a ∈ done
  · have here := draft.size.symm.idAt?_counterpart there
    obtain ⟨old, before⟩ := draft.size.laid.exists_get? here
    obtain ⟨d', found', -, formula⟩ := (draft.copied a typed).exists_get? draft.size here before
    rw [draft.size.symm.counterpart_counterpart (Option.isSome_of_eq_some found), found] at found'
    cases found'
    rw [formula, Formula.mem_precedents_rename] at read
    obtain ⟨q, readHere, rfl⟩ := read
    have reads' : s.Reads (t.counterpart s c) q := reads_iff.mpr ⟨old, before, readHere⟩
    rwa [draft.size.counterpart_counterpart (sound.wired.read_live _ q reads')]
  · have empty := draft.blank a typed _ (entryAt?_eq there found)
    rw [(Cell.entry_eq.mp empty).2] at read
    cases read

theorem Draft.reflTransGen_reads (draft : Draft s done t) (sound : s.Sound) {c p : CellId}
    (path : ReflTransGen t.Reads c p) :
    ReflTransGen s.Reads (t.counterpart s c) (t.counterpart s p) :=
  path.lift _ fun _ _ reads => draft.reads reads sound

/-- The next input closes no cycle on the draft, since it closes none on `s`. -/
theorem Draft.exists_prepared (draft : Draft s done t) (sound : s.Sound) (stated : s.Stated)
    {id : CellId} {c : Cell} (here : s.idAt? a = some id) (found : s.cells.get? id = some c) :
    ∃ order, t.prepareInput a c.raw =
      .ok (s.counterpart t id, c.formula.rename (s.counterpart t), order) := by
  have there := draft.size.idAt?_counterpart here
  have parsed := draft.size.ofInput (stated id c found)
  rcases draft.sound.prepareInput_cases there parsed with ⟨prepared, -⟩ | ⟨-, p, read, path⟩
  · exact prepared
  · -- The path that would close a cycle on the draft is there on `s` too.
    obtain ⟨q, readHere, rfl⟩ := Formula.mem_precedents_rename.mp read
    have reads : s.Reads id q := reads_iff.mpr ⟨c, found, readHere⟩
    have back := draft.reflTransGen_reads sound path
    rw [draft.size.counterpart_counterpart (sound.wired.read_live id q reads),
      draft.size.counterpart_counterpart (Option.isSome_of_eq_some found)] at back
    exact absurd (TransGen.head' reads back) (sound.acyclic id)

theorem Laid.entryAt?_setInput (laid : t.Laid) {raw : String} {id : CellId} {formula : Formula}
    {order : List CellId} (prepared : t.prepareInput a raw = .ok (id, formula, order))
    (b : Address) : (t.setInput a raw).sheet.entryAt? b =
      (t.entryAt? b).map fun entry => if b = a then (raw, formula) else entry := by
  obtain ⟨there, -⟩ := prepareInput_eq_ok prepared
  have columns := (sameFrame_setInput t a raw).columns
  unfold entryAt? cellAt?
  rw [idAt?_congr columns, Option.map_bind, Option.map_bind, Option.map_bind]
  cases onDraft : t.idAt? b with
  | none => rfl
  | some q =>
    have same : q = id ↔ b = a := by
      constructor
      · rintro rfl
        exact laid.unique b a q onDraft there
      · rintro rfl
        exact Option.some.inj (onDraft.symm.trans there)
    simp only [Option.bind_some, Function.comp_apply, entry_setInput prepared, Option.map_map,
      Function.comp_def, same]

/-- One more address has been typed. -/
theorem Draft.setInput (draft : Draft s done t) (sound : s.Sound) (stated : s.Stated)
    {id : CellId} {c : Cell} (here : s.idAt? a = some id) (found : s.cells.get? id = some c) :
    (t.setInput a c.raw).result = .ok () ∧
      Draft s (insert a done) (t.setInput a c.raw).sheet := by
  obtain ⟨order, prepared⟩ := draft.exists_prepared sound stated here found
  have frame := sameFrame_setInput t a c.raw
  have sound' := draft.sound.setInput a c.raw
  have entries := draft.size.laid'.entryAt?_setInput prepared
  refine ⟨(setInput_of_prepared prepared).1, ?_, sound', ?_, ?_⟩
  · exact draft.size.congr frame sound'.laid
  · intro b typed
    unfold CopiedAt
    rw [entries, counterpart_congr frame.columns]
    by_cases same : b = a
    · subst same
      have there := draft.size.idAt?_counterpart here
      obtain ⟨d, found'⟩ := draft.size.laid'.exists_get? there
      rw [entryAt?_eq there found', entryAt?_eq here found]
      simp only [Option.map_some, if_true, Cell.entry]
    · have before := draft.copied b (typed.resolve_left same)
      unfold CopiedAt at before
      simp only [if_neg same, Option.map_id']
      exact before
  · intro b untyped entry onDraft
    rw [Set.mem_insert_iff, not_or] at untyped
    rw [entries] at onDraft
    simp only [if_neg untyped.1, Option.map_id'] at onDraft
    exact draft.blank b untyped.2 entry onDraft

/-- All goes well, and all is typed in the end. -/
theorem Draft.retype (draft : Draft s done t) (sound : s.Sound) (stated : s.Stated)
    {order : List Address} (onSheet : ∀ a ∈ order, (s.idAt? a).isSome) :
    ∃ u, s.retype order t = .ok u ∧ Draft s (done ∪ {a | a ∈ order}) u := by
  induction order generalizing done t with
  | nil => exact ⟨t, rfl, by simpa using draft⟩
  | cons a rest ih =>
    obtain ⟨id, here⟩ := Option.isSome_iff_exists.mp (onSheet a List.mem_cons_self)
    obtain ⟨c, found⟩ := sound.laid.exists_get? here
    obtain ⟨ok, next⟩ := draft.setInput sound stated here found
    obtain ⟨u, typed, last⟩ := ih next fun b member => onSheet b (List.mem_cons_of_mem a member)
    refine ⟨u, ?_, ?_⟩
    · unfold Sheet.retype
      rw [cellAt_eq_ok.mpr ⟨id, here, found⟩, ok_bind]
      simp only [ok, ok_bind]
      exact typed
    · have both : insert a done ∪ {b | b ∈ rest} = done ∪ {b | b ∈ a :: rest} := by
        ext b
        simp only [Set.mem_union, Set.mem_insert_iff, Set.mem_ofPred_eq, List.mem_cons]
        tauto
      rwa [both] at last

theorem retype_ofSize (reachable : s.Reachable) {order : List Address}
    (all : ∀ a, a ∈ order ↔ (s.idAt? a).isSome) :
    ∃ t, s.retype order (ofSize s.width s.height) = .ok t ∧
      t.width = s.width ∧ t.height = s.height ∧
      ∀ a, (t.cellAt? a).map (fun c => (c.raw, c.value)) =
        (s.cellAt? a).map fun c => (c.raw, c.value) := by
  have sound := reachable.sound
  obtain ⟨t, typed, draft⟩ := (draft_ofSize sound.laid).retype sound reachable.stated
    fun a member => (all a).mp member
  have copied : ∀ a, (s.idAt? a).isSome → CopiedAt s t a :=
    fun a onSheet => draft.copied a (.inr ((all a).mpr onSheet))
  exact ⟨t, typed, draft.size.width, draft.size.height,
    draft.size.raw_value_eq sound draft.sound.current copied⟩

/-- `B3` is typed first, when the cells that it reads are still empty. -/
theorem retype_ofSize_sample : ∃ t,
    sample.retype [⟨1, 2⟩, ⟨0, 0⟩, ⟨1, 0⟩, ⟨0, 1⟩, ⟨1, 1⟩, ⟨0, 2⟩] (ofSize 2 3) = .ok t ∧
      (t.cellAt? ⟨1, 2⟩).map (fun c => (c.raw, c.value)) = some ("=SUM(A1:A3)*3+B1", .number 6) := by
  have width : sample.width = 2 := by decide +kernel
  have height : sample.height = 3 := by decide +kernel
  have all : ∀ a : Address, a ∈ [⟨1, 2⟩, ⟨0, 0⟩, ⟨1, 0⟩, ⟨0, 1⟩, ⟨1, 1⟩, ⟨0, 2⟩] ↔
      (sample.idAt? a).isSome := by
    intro ⟨column, row⟩
    rw [reachable_sample.sound.laid.isSome_idAt?, width, height]
    simp only [List.mem_cons, Address.mk.injEq, List.not_mem_nil, or_false]
    omega
  obtain ⟨t, typed, -, -, same⟩ := retype_ofSize reachable_sample all
  rw [width, height] at typed
  refine ⟨t, typed, ?_⟩
  rw [same]
  decide +kernel

end Spreadsheet.Sheet
