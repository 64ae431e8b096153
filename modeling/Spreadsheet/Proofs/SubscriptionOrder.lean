import Spreadsheet.Proofs.Propagation

/-! Cells that read an edited cell are recomputed in the order in which they began to read it,
unless one reads another. -/
namespace Spreadsheet

/-- Whether a path leads to `c` does not depend on the edges of a vertex that does not reach `c`. -/
theorem transGen_redirect {α : Type} {R R' : α → α → Prop} {x b c : α}
    (same : ∀ a b, a ≠ x → R a b → R' a b) (away : ¬ Relation.TransGen R x c)
    (path : Relation.TransGen R b c) : Relation.TransGen R' b c := by
  induction path using Relation.TransGen.head_induction_on with
  | @single a edge =>
    have other : a ≠ x := by
      rintro rfl
      exact away (.single edge)
    exact .single (same a c other edge)
  | @head a d edge onward ih =>
    have other : a ≠ x := by
      rintro rfl
      exact away (.head edge onward)
    exact .head (same a d other edge) ih

theorem Cell.exists_dependents_eq {c : Cell} {b : CellId} {before behind : List Subscriber}
    (listed : c.subscribers = before ++ .cell b :: behind) :
    ∃ front rest, c.dependents = front ++ b :: rest ∧ ∀ d, d ∈ rest ↔ .cell d ∈ behind :=
  ⟨{ c with subscribers := before }.dependents, { c with subscribers := behind }.dependents,
    by simp [dependents, listed], fun _ => mem_dependents⟩

namespace Sheet
open Relation

variable {s t : Sheet} {x b : CellId} {behind : List Subscriber} {a : Address} {raw : String}
  {formula : Formula} {order : List CellId}

/-- `b` subscribes to `x`, and reads none of the cells that come after it there. -/
structure Independent (s : Sheet) (x b : CellId) (behind : List Subscriber) : Prop where
  listed : ∃ c before, s.cells.get? x = some c ∧ c.subscribers = before ++ .cell b :: behind
  apart : ∀ c, .cell c ∈ behind → ¬ TransGen s.Reads b c

/-- It makes no difference what `x` itself reads. -/
theorem Independent.redirect (independent : s.Independent x b behind) (wired : t.Wired)
    (acyclic : t.Acyclic) (same : ∀ c p, c ≠ x → t.Reads c p → s.Reads c p)
    (subscribers : (t.cells.get? x).map Cell.subscribers = (s.cells.get? x).map Cell.subscribers) :
    t.Independent x b behind := by
  obtain ⟨⟨c, before, found, split⟩, apart⟩ := independent
  rw [found, Option.map_some, split, Option.map_eq_some_iff] at subscribers
  obtain ⟨d, found', split'⟩ := subscribers
  refine ⟨⟨d, before, found', split'⟩, fun e member path => apart e member ?_⟩
  have reads : t.Reads e x := by
    rw [← wired.readers x d e found', split']
    simp [member]
  exact transGen_redirect same (fun back => acyclic x (back.tail reads)) path

/-- The walk from `x` comes to `b` before it comes to what stands after `b` there. -/
theorem Sound.exists_split (sound : s.Sound) (independent : s.Independent x b behind)
    (walked : s.dependencyOrder [x] = .ok order) :
    ∃ first rest, order = first ++ b :: rest ∧ ∀ c, .cell c ∈ behind → c ∈ rest := by
  obtain ⟨⟨cell, before, found, split⟩, apart⟩ := independent
  obtain ⟨front, later, children, members⟩ := Cell.exists_dependents_eq split
  have edges : s.dependents x = front ++ b :: later := by
    rw [dependents, found, Option.map_some, Option.getD_some, children]
  have once : .cell b ∉ behind := by
    have nodup := sound.wired.nodup x cell found
    rw [split] at nodup
    exact (List.nodup_cons.mp (List.nodup_append.mp nodup).2.1).1
  have away : ∀ c ∈ later, ¬ ReflTransGen (fun p c => c ∈ s.dependents p) c b := by
    intro c member path
    have listed := (members c).mp member
    simp only [sound.wired.mem_dependents] at path
    rcases reflTransGen_iff_eq_or_transGen.mp (reflTransGen_swap.mp path) with rfl | reads
    · exact once listed
    · exact apart c listed reads
  obtain ⟨first, rest, split, all⟩ := Graph.topologicalOrder_siblings
    (fun _ => dependents_of_not_mem_ids) (topologicalOrder_of_dependencyOrder walked) edges away
  exact ⟨first, rest, split, fun c member => all ((members c).mpr member)⟩

/-- Nothing that comes behind `b` in the run is told before `b`. -/
theorem pairwise_targets (told : CellId → List ListenerId) {P : CellId → Prop}
    {first rest : List CellId} (nodup : (first ++ b :: rest).Nodup) (later : ∀ c, P c → c ∈ rest) :
    ((first ++ b :: rest).flatMap fun c => (told c).map (c, ·)).Pairwise
      fun k l => l.1 = b → ¬ P k.1 := by
  obtain ⟨-, behind, apart⟩ := List.nodup_append.mp nodup
  obtain ⟨once, -⟩ := List.nodup_cons.mp behind
  have notB : ¬ P b := fun listed => once (later b listed)
  have run : (first ++ b :: rest).Pairwise fun p q => q = b → ¬ P p := by
    refine List.pairwise_append.mpr ⟨?_, List.pairwise_cons.mpr ⟨fun _ _ _ => notB, ?_⟩, ?_⟩
    · refine List.pairwise_of_forall_mem_list fun p _ q member same => ?_
      exact absurd same (apart q member b List.mem_cons_self)
    · refine List.pairwise_of_forall_mem_list fun p _ q member same => ?_
      exact absurd (same ▸ member) once
    · intro p member q _ _ listed
      exact apart p member p (List.mem_cons_of_mem b (later p listed)) rfl
  have chunk {c : CellId} {k : CellId × ListenerId} (member : k ∈ (told c).map (c, ·)) :
      k.1 = c := by
    obtain ⟨l, -, rfl⟩ := List.mem_map.mp member
    rfl
  refine List.pairwise_flatMap.mpr ⟨fun c _ => ?_, run.imp fun ordered k hk l hl => ?_⟩
  · refine List.pairwise_of_forall_mem_list fun k hk l hl same => ?_
    rwa [chunk hk, ← chunk hl, same]
  · rw [chunk hk, chunk hl]
    exact ordered

/-- Neither what subscribes to the edited cell nor which of that is independent changes. -/
theorem Sound.independent_setInput (sound : s.Sound)
    (prepared : s.prepareInput a raw = .ok (x, formula, order)) :
    s.Independent x b behind ↔ (s.setInput a raw).sheet.Independent x b behind := by
  obtain ⟨found, -, walked, free⟩ := prepareInput_eq_ok prepared
  have live := sound.laid.live_of_idAt? found
  have after : (s.setInput a raw).sheet.Sound := sound.setInput a raw
  have same (c p : CellId) (other : c ≠ x) :
      (s.setInput a raw).sheet.Reads c p ↔ s.Reads c p := by
    rw [reads_setInput prepared live, if_neg other]
  have subscribers : ((s.setInput a raw).sheet.cells.get? x).map Cell.subscribers =
      (s.cells.get? x).map Cell.subscribers := by
    obtain ⟨rest, rfl⟩ := Graph.topologicalOrder_single (topologicalOrder_of_dependencyOrder walked)
    have now : x ∉ formula.precedents := fun read => free x read List.mem_cons_self
    have before : x ∉ s.precedents x := fun read => sound.acyclic x (.single read)
    simp only [subscribers_setInput prepared, Cell.relink, if_neg now, if_neg before]
  constructor
  · exact fun independent => independent.redirect after.wired after.acyclic
      (fun c p other => (same c p other).mp) subscribers
  · exact fun independent => independent.redirect sound.wired sound.acyclic
      (fun c p other => (same c p other).mpr) subscribers.symm

/-- A cell that reads none of those that subscribed to the edited cell after it is recomputed, and
its listeners are called, before them. -/
theorem setInput_sibling_order (reachable : s.Reachable) {op : Operation}
    (typed : op = .setInput a raw ∨ op = .clear a ∧ raw = "") {o : Outcome Unit}
    (returns : s.Returns op o) (accepted : o.result = .ok ()) :
    ∃ x formula order, s.idAt? a = some x ∧ Propagated s o.sheet o.calls x raw formula order ∧
      ∀ b behind, (s.Independent x b behind ↔ o.sheet.Independent x b behind) ∧
        (s.Independent x b behind →
          (∃ first rest, order = first ++ b :: rest ∧ ∀ c, .cell c ∈ behind → c ∈ rest) ∧
          o.calls.Pairwise fun k l => l.cell = b → .cell k.cell ∉ behind) := by
  obtain ⟨rfl, -⟩ := returns
  obtain ⟨same, x, formula, order, prepared⟩ := exists_prepared_of_accepted typed accepted
  rw [same]
  have sound := reachable.sound
  obtain ⟨found, -, walked, -⟩ := prepareInput_eq_ok prepared
  have propagated := sound.propagated reachable.enrolled reachable.numbered prepared
  refine ⟨x, formula, order, found, propagated, fun b behind => ?_⟩
  refine ⟨sound.independent_setInput prepared, fun independent => ?_⟩
  obtain ⟨first, rest, rfl, later⟩ := sound.exists_split independent walked
  have targets := pairwise_targets s.listenersOf propagated.nodup later
  rw [← propagated.targets, List.pairwise_map] at targets
  exact ⟨⟨first, rest, rfl, later⟩, targets⟩

/-- `A2`, `B1` and `B2` read `A1`, in this order, and `A2` reads `B1` as well. The listener of `B2`
is older than that of `B1`. -/
def sampleSiblings : Sheet :=
  (((((ofSize 2 2).apply (.setInput ⟨0, 1⟩ "=A1+B1")).sheet.apply
    (.setInput ⟨1, 0⟩ "=A1")).sheet.apply (.setInput ⟨1, 1⟩ "=A1*2")).sheet.apply
    (.subscribe ⟨1, 1⟩)).sheet.apply (.subscribe ⟨1, 0⟩) |>.sheet

theorem reachable_sampleSiblings : sampleSiblings.Reachable := by
  refine .apply (.apply (.apply (.apply (.apply (.ofSize ?_) _ ?_) _ ?_) _ ?_) _ ?_) _ ?_
  · decide
  all_goals decide +kernel

/-- `B1` goes before `B2`, and its listener, though younger, is called first. -/
theorem setInput_sibling_order_sample :
    (∃ x formula order, sampleSiblings.idAt? ⟨0, 0⟩ = some x ∧
      Propagated sampleSiblings (sampleSiblings.apply (.setInput ⟨0, 0⟩ "5")).sheet
        (sampleSiblings.apply (.setInput ⟨0, 0⟩ "5")).calls x "5" formula order ∧
      ∀ b behind, (sampleSiblings.Independent x b behind ↔
          (sampleSiblings.apply (.setInput ⟨0, 0⟩ "5")).sheet.Independent x b behind) ∧
        (sampleSiblings.Independent x b behind →
          (∃ first rest, order = first ++ b :: rest ∧ ∀ c, .cell c ∈ behind → c ∈ rest) ∧
          (sampleSiblings.apply (.setInput ⟨0, 0⟩ "5")).calls.Pairwise
            fun k l => l.cell = b → .cell k.cell ∉ behind)) ∧
      sampleSiblings.Independent ⟨0⟩ ⟨2⟩ [.cell ⟨3⟩] ∧
      (sampleSiblings.apply (.setInput ⟨0, 0⟩ "5")).calls.map Call.target =
        [(⟨2⟩, ⟨1⟩), (⟨3⟩, ⟨0⟩)] := by
  refine ⟨setInput_sibling_order reachable_sampleSiblings (.inl rfl) ⟨rfl, ?_⟩ ?_, ⟨?_, ?_⟩, ?_⟩
  · decide +kernel
  · decide +kernel
  · have listed : (sampleSiblings.cells.get? ⟨0⟩).map Cell.subscribers =
        some ([.cell ⟨1⟩] ++ [.cell ⟨2⟩, .cell ⟨3⟩]) := by decide +kernel
    obtain ⟨c, found, split⟩ := Option.map_eq_some_iff.mp listed
    exact ⟨c, _, found, split⟩
  · have first : ∀ p ∈ sampleSiblings.precedents ⟨2⟩, p = ⟨0⟩ := by decide +kernel
    have none : ∀ p, ¬ sampleSiblings.Reads ⟨0⟩ p := by
      have empty : sampleSiblings.precedents ⟨0⟩ = [] := by decide +kernel
      simp [Reads, empty]
    intro c member path
    cases List.mem_singleton.mp member
    obtain ⟨p, reads, onward⟩ := TransGen.head'_iff.mp path
    rcases (first p reads ▸ onward).cases_head with same | ⟨q, further, -⟩
    · cases same
    · exact none q further
  · decide +kernel

end Sheet
end Spreadsheet
