import Spreadsheet.Proofs.Reachable
import Spreadsheet.Proofs.WalkSteps

/-! The order in which a pass recomputes what depends on some cells: each of these cells once, after
all that it reads. -/
namespace Spreadsheet.Sheet
open Relation

variable {s : Sheet}

/-- From any roots, in any order and however often they are named, the walk comes to an end without
a cycle. It lists the roots and what reads them at any remove, each cell once and behind all that it
reads. -/
theorem dependencyOrder_sorts (reachable : s.Reachable) (roots : List CellId) :
    ∃ order, s.dependencyOrder roots = .ok order ∧
      (Graph.Walk.start roots).run s.dependents
        (Graph.Walk.cost s.dependents order + roots.length + 1) = some (.ok order) ∧
      order.Nodup ∧ (∀ c, c ∈ order ↔ ∃ root ∈ roots, ReflTransGen s.Reads c root) ∧
      ∀ before c behind, order = before ++ c :: behind →
        ∀ p ∈ order, s.Reads c p → p ∈ before := by
  have wired := reachable.sound.wired
  obtain ⟨order, walked⟩ := wired.exists_dependencyOrder reachable.sound.acyclic roots
  have ordered := topologicalOrder_of_dependencyOrder walked
  refine ⟨order, walked, ?_, ?_, ?_, ?_⟩
  · exact Graph.Walk.run_start (fun _ => dependents_of_not_mem_ids) ordered
  · exact Graph.topologicalOrder_nodup ordered
  · exact fun c => wired.mem_dependencyOrder walked
  · intro before c behind split p member reads
    exact wired.mem_before_of_reads walked split member reads

theorem dependencyOrder_sorts_sample :
    sample.dependencyOrder [⟨3⟩, ⟨0⟩, ⟨3⟩] = .ok [⟨0⟩, ⟨3⟩] ∧
    (Graph.Walk.start [⟨3⟩, ⟨0⟩, ⟨3⟩]).run sample.dependents 7 = some (.ok [⟨0⟩, ⟨3⟩]) ∧
    ∀ c, c ∈ [(⟨0⟩ : CellId), ⟨3⟩] ↔
      ∃ root ∈ [(⟨3⟩ : CellId), ⟨0⟩, ⟨3⟩], ReflTransGen sample.Reads c root := by
  have walked : sample.dependencyOrder [⟨3⟩, ⟨0⟩, ⟨3⟩] = .ok [⟨0⟩, ⟨3⟩] := by decide +kernel
  obtain ⟨order, same, run, -, listed, -⟩ := dependencyOrder_sorts reachable_sample [⟨3⟩, ⟨0⟩, ⟨3⟩]
  rw [walked] at same
  cases same
  have count : Graph.Walk.cost sample.dependents [⟨0⟩, ⟨3⟩] = 3 := by decide +kernel
  rw [count] at run
  exact ⟨walked, run, listed⟩

end Spreadsheet.Sheet
