import Spreadsheet.Proofs.Reachable

/-! What can be relied on between calls: values are those of the formulas, and subscriptions are
the formulas turned around. -/
namespace Spreadsheet.Sheet

variable {s : Sheet}

theorem value_eq_evaluate (reachable : s.Reachable) {id : CellId} {c : Cell}
    (live : s.cells.get? id = some c) : c.value = c.formula.evaluate s.cells.valueOf :=
  reachable.sound.current id c live

theorem value_eq_evaluate_sample : ∃ c, sample.cells.get? ⟨3⟩ = some c ∧
    c.value = c.formula.evaluate sample.cells.valueOf := by
  have live : (sample.cells.get? ⟨3⟩).isSome := by decide +kernel
  obtain ⟨c, found⟩ := Option.isSome_iff_exists.mp live
  exact ⟨c, found, value_eq_evaluate reachable_sample found⟩

/-- The cell that a listener watches, by the table. -/
def watched? (s : Sheet) (l : ListenerId) : Option CellId :=
  (s.listeners.find? (·.1 == l)).map Prod.snd

theorem Wired.watched?_eq_some (wired : s.Wired) {l : ListenerId} {p : CellId} :
    s.watched? l = some p ↔ (l, p) ∈ s.listeners := by
  unfold watched?
  constructor
  · intro h
    obtain ⟨⟨l', q⟩, found, rfl⟩ := Option.map_eq_some_iff.mp h
    have key : l' = l := by simpa using List.find?_some found
    rw [← key]
    exact List.mem_of_find?_eq_some found
  · intro listed
    cases found : s.listeners.find? (·.1 == l) with
    | none => simpa using List.find?_eq_none.mp found (l, p) listed
    | some entry =>
      obtain ⟨l', q⟩ := entry
      have key : l' = l := by simpa using List.find?_some found
      subst key
      rw [Option.map_some, wired.eq_of_key (List.mem_of_find?_eq_some found) listed]

/-- A subscriber that is a cell reads the cell, one that is a listener watches it, each is there
once, only live cells are named, and no cell reads itself at any remove. -/
theorem subscribers_iff_reads (reachable : s.Reachable) :
    (∀ p cell c, s.cells.get? p = some cell → (.cell c ∈ cell.subscribers ↔
      ∃ reader, s.cells.get? c = some reader ∧ p ∈ reader.formula.precedents)) ∧
    (∀ p cell q, s.cells.get? p = some cell →
      .cell q ∈ cell.subscribers ∨ q ∈ cell.formula.precedents → (s.cells.get? q).isSome) ∧
    (∀ p cell l, s.cells.get? p = some cell →
      (.listener l ∈ cell.subscribers ↔ s.watched? l = some p)) ∧
    (∀ p cell, s.cells.get? p = some cell → cell.subscribers.Nodup) ∧
    ∀ c, ¬ Relation.TransGen s.Reads c c := by
  have wired := reachable.sound.wired
  refine ⟨?_, ?_, ?_, wired.nodup, reachable.sound.acyclic⟩
  · intro p cell c found
    rw [wired.readers p cell c found, reads_iff]
  · rintro p cell q found (subscribed | read)
    · obtain ⟨reader, live, -⟩ := reads_iff.mp ((wired.readers p cell q found).mp subscribed)
      rw [live]
      rfl
    · exact wired.read_live p q (reads_iff.mpr ⟨cell, found, read⟩)
  · intro p cell l found
    rw [wired.watchers p cell l found, wired.watched?_eq_some]

theorem subscribers_iff_reads_sample : ∃ cell, sample.cells.get? ⟨3⟩ = some cell ∧
    (.listener ⟨0⟩ ∈ cell.subscribers ↔ sample.watched? ⟨0⟩ = some ⟨3⟩) ∧
    ∀ c, ¬ Relation.TransGen sample.Reads c c := by
  have live : (sample.cells.get? ⟨3⟩).isSome := by decide +kernel
  obtain ⟨cell, found⟩ := Option.isSome_iff_exists.mp live
  obtain ⟨-, -, watchers, -, acyclic⟩ := subscribers_iff_reads reachable_sample
  exact ⟨cell, found, watchers ⟨3⟩ cell ⟨0⟩ found, acyclic⟩

end Spreadsheet.Sheet
