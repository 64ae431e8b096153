import Spreadsheet.Proofs.TopologicalOrder
import Spreadsheet.Proofs.Wiring

/-! The order in which cells are recomputed, and which changes of formulas close no cycle. -/
namespace Spreadsheet

/-! Cycles of a relation. -/
section cycles
open Relation
variable {α : Type} {R R' : α → α → Prop}

/-- What is new leads into dead ends only. -/
theorem acyclic_of_dead_ends (acyclic : ∀ a, ¬ TransGen R a a)
    (old : ∀ a b, R' a b → R a b ∨ ∀ c, ¬ R' b c) (a : α) : ¬ TransGen R' a a := by
  intro cycle
  have walk : ∀ b, TransGen R' a b → (∃ c, R' b c) → TransGen R a b := by
    intro b h
    induction h with
    | @single b edge =>
      rintro ⟨c, onward⟩
      exact .single ((old a b edge).resolve_right fun none => none c onward)
    | @tail b c _ edge ih =>
      rintro ⟨d, onward⟩
      exact (ih ⟨c, edge⟩).tail ((old b c edge).resolve_right fun none => none d onward)
  obtain ⟨b, onward, -⟩ := TransGen.head'_iff.mp cycle
  exact acyclic a (walk a cycle ⟨b, onward⟩)

/-- Only `x` leads anywhere new, and never to where it can be reached from: `D` holds all that
leads to `x`. -/
theorem acyclic_of_redirect {x : α} {D : α → Prop} (acyclic : ∀ a, ¬ TransGen R a a) (source : D x)
    (closed : ∀ a b, R a b → D b → D a) (others : ∀ a b, R' a b → a ≠ x → R a b)
    (away : ∀ b, R' x b → ¬ D b) (a : α) : ¬ TransGen R' a a := by
  intro cycle
  have back : ∀ a b, R' a b → D b → D a := by
    intro a b edge inside
    by_cases same : a = x
    · rw [same]
      exact source
    · exact closed a b (others a b edge same) inside
  have backAll : ∀ {a b}, TransGen R' a b → D b → D a := by
    intro a b h
    induction h with
    | single edge => exact back _ _ edge
    | tail _ edge ih => exact fun inside => ih (back _ _ edge inside)
  -- A cycle lies in `D` or outside of it, so it has no edge that leaves `x`.
  by_cases inside : D a
  · have walk : ∀ b, TransGen R' a b → D b → TransGen R a b := by
      intro b h
      induction h with
      | @single b edge =>
        intro inside
        exact .single (others a b edge fun same => away b (same ▸ edge) inside)
      | @tail b c _ edge ih =>
        intro inside
        have old := others b c edge fun same => away c (same ▸ edge) inside
        exact (ih (closed b c old inside)).tail old
    exact acyclic a (walk a cycle inside)
  · have walk : ∀ b, TransGen R' a b → TransGen R a b := by
      intro b h
      induction h with
      | @single b edge => exact .single (others a b edge fun same => inside (same ▸ source))
      | @tail b c path edge ih =>
        exact ih.tail (others b c edge fun same => inside (backAll path (same ▸ source)))
    exact acyclic a (walk a cycle)

/-- The way to `x` does not depend on the edges out of `x`: what counts is where it first comes
there. -/
theorem reflTransGen_redirect_iff {x : α} (same : ∀ a b, a ≠ x → (R' a b ↔ R a b)) {a : α} :
    ReflTransGen R' a x ↔ ReflTransGen R a x := by
  have one {S S' : α → α → Prop} (same : ∀ a b, a ≠ x → S a b → S' a b) :
      ∀ a, ReflTransGen S a x → ReflTransGen S' a x := by
    intro a path
    induction path using ReflTransGen.head_induction_on with
    | refl => exact .refl
    | @head a c edge _ ih =>
      by_cases here : a = x
      · rw [here]
      · exact ih.head (same a c here edge)
  exact ⟨one (fun a b other => (same a b other).mp) a, one (fun a b other => (same a b other).mpr) a⟩

/-- With new edges out of `x` in place of its old ones, all cycles lead through one of them. -/
theorem exists_cycle_of_redirect_iff {x : α} {P : α → Prop} [DecidableEq α]
    (acyclic : ∀ a, ¬ TransGen R a a) :
    (∃ a, TransGen (fun a b => if a = x then P b else R a b) a a) ↔
      ∃ b, P b ∧ ReflTransGen R b x := by
  constructor
  · contrapose!
    intro away a
    refine acyclic_of_redirect (x := x) (D := (ReflTransGen R · x)) acyclic .refl
      (fun a b edge path => path.head edge) (fun a b edge other => ?_) (fun b edge => ?_) a
    · rwa [if_neg other] at edge
    · rw [if_pos rfl] at edge
      exact away b edge
  · rintro ⟨b, new, path⟩
    have back : ReflTransGen (fun a b => if a = x then P b else R a b) b x :=
      (reflTransGen_redirect_iff fun a b other => by rw [if_neg other]).mpr path
    exact ⟨x, TransGen.head' (by rwa [if_pos rfl]) back⟩

end cycles

namespace Sheet

variable {s : Sheet}

theorem Wired.mem_dependents (wired : s.Wired) {p c : CellId} : c ∈ s.dependents p ↔ s.Reads c p := by
  unfold dependents
  cases found : s.cells.get? p with
  | none =>
    simp only [Option.map_none, Option.getD_none, List.not_mem_nil, false_iff]
    intro reads
    have := wired.read_live c p reads
    simp [found] at this
  | some cell =>
    simp only [Option.map_some, Option.getD_some]
    rw [Cell.mem_dependents, wired.readers p cell c found]

theorem dependents_of_not_mem_ids {a : CellId} (h : a ∉ s.cells.ids) : s.dependents a = [] := by
  rw [CellStore.mem_ids, Option.not_isSome_iff_eq_none] at h
  simp [dependents, h]

theorem Wired.acyclic_dependents (wired : s.Wired) (acyclic : s.Acyclic) :
    Graph.Acyclic s.dependents := by
  intro a cycle
  have turned : Relation.TransGen (Function.swap s.Reads) a a :=
    Relation.TransGen.mono (fun p c edge => wired.mem_dependents.mp edge) a a cycle
  exact acyclic a (Relation.transGen_swap.mp turned)

theorem Wired.exists_dependencyOrder (wired : s.Wired) (acyclic : s.Acyclic) (roots : List CellId) :
    ∃ order, s.dependencyOrder roots = .ok order := by
  obtain ⟨order, h⟩ : ∃ order, Graph.topologicalOrder s.dependents s.cells.ids roots = .ok order :=
    Graph.topologicalOrder_ok (wired.acyclic_dependents acyclic) roots
  unfold dependencyOrder
  rw [h]
  exact ⟨order, rfl⟩

theorem topologicalOrder_of_dependencyOrder {roots order : List CellId}
    (h : s.dependencyOrder roots = .ok order) :
    Graph.topologicalOrder s.dependents s.cells.ids roots = .ok order := by
  unfold dependencyOrder at h
  split at h
  · cases h
    assumption
  · contradiction

theorem ordered_of_dependencyOrder {roots order : List CellId}
    (h : s.dependencyOrder roots = .ok order) :
    Graph.Ordered s.dependents order ∧ roots ⊆ order :=
  Graph.topologicalOrder_ordered (fun _ => dependents_of_not_mem_ids)
    (topologicalOrder_of_dependencyOrder h)

/-- The order holds the roots and all cells that read them at any remove. -/
theorem Wired.mem_dependencyOrder (wired : s.Wired) {roots order : List CellId}
    (h : s.dependencyOrder roots = .ok order) {c : CellId} :
    c ∈ order ↔ ∃ root ∈ roots, Relation.ReflTransGen s.Reads c root := by
  have edges : (fun a b => b ∈ s.dependents a) = Function.swap s.Reads := by
    funext p c
    exact propext wired.mem_dependents
  rw [Graph.mem_topologicalOrder (fun _ => dependents_of_not_mem_ids)
    (topologicalOrder_of_dependencyOrder h), edges]
  simp only [Relation.reflTransGen_swap]

/-- What is listed stands behind all that it reads and that is listed too. -/
theorem Wired.mem_before_of_reads (wired : s.Wired) {roots order before behind : List CellId}
    {c p : CellId} (walked : s.dependencyOrder roots = .ok order)
    (split : order = before ++ c :: behind) (member : p ∈ order) (reads : s.Reads c p) :
    p ∈ before := by
  have nodup := Graph.topologicalOrder_nodup (topologicalOrder_of_dependencyOrder walked)
  exact (ordered_of_dependencyOrder walked).1.mem_before nodup split member
    (wired.mem_dependents.mpr reads)

/-- What holds of a cell, if it holds of those that the cell reads, holds of all. -/
theorem Acyclic.wellFounded_reads (acyclic : s.Acyclic) (wired : s.Wired) :
    WellFounded (Function.swap s.Reads) := by
  have irrefl : Std.Irrefl (Relation.TransGen (Function.swap s.Reads)) :=
    ⟨fun c cycle => acyclic c (Relation.transGen_swap.mp cycle)⟩
  have strict : IsStrictOrder CellId (Relation.TransGen (Function.swap s.Reads)) := {}
  have live : {c | c ∈ s.cells.ids}.Finite := s.cells.ids.finite_toSet
  have onLive : {c | c ∈ s.cells.ids}.WellFoundedOn (Relation.TransGen (Function.swap s.Reads)) :=
    live.wellFoundedOn
  refine Subrelation.wf ?_ (Set.wellFoundedOn_iff.mp onLive)
  intro p c reads
  obtain ⟨cell, found, -⟩ := reads_iff.mp reads
  exact ⟨.single reads, CellStore.mem_ids.mpr (wired.read_live c p reads),
    CellStore.mem_ids.mpr (Option.isSome_of_eq_some found)⟩

/-! The typing of a formula that reads nothing of what depends on its cell. -/

/-- What an input that is accepted has passed. -/
theorem prepareInput_eq_ok {a : Address} {raw : String} {id : CellId} {formula : Formula}
    {order : List CellId} (h : s.prepareInput a raw = .ok (id, formula, order)) :
    s.idAt? a = some id ∧ Formula.ofInput s.resolver raw = .ok formula ∧
      s.dependencyOrder [id] = .ok order ∧ ∀ p ∈ formula.precedents, p ∉ order := by
  unfold prepareInput at h
  obtain ⟨id', found, h⟩ := bind_eq_ok.mp h
  obtain ⟨formula', parsed, h⟩ := bind_eq_ok.mp h
  obtain ⟨order', walked, h⟩ := bind_eq_ok.mp h
  split at h
  · contradiction
  · rename_i free
    cases h
    refine ⟨idAt_eq_ok.mp found, mapError_eq_ok.mp parsed, walked, fun p read => ?_⟩
    have := List.find?_eq_none.mp free p read
    simpa using this

theorem Acyclic.adopt (acyclic : s.Acyclic) (wired : s.Wired) {id : CellId} {raw : String}
    {formula : Formula} {value : Cell → Value} {order : List CellId}
    (live : (s.cells.get? id).isSome) (walked : s.dependencyOrder [id] = .ok order)
    (free : ∀ p ∈ formula.precedents, p ∉ order) : (s.adopt id raw formula value).Acyclic := by
  obtain ⟨ordered, root⟩ := ordered_of_dependencyOrder walked
  refine acyclic_of_redirect (x := id) (D := (· ∈ order)) acyclic (root List.mem_cons_self) ?_ ?_ ?_
  · intro c p reads member
    exact ordered.closed member (wired.mem_dependents.mpr reads)
  · intro c p reads other
    rw [reads_adopt live, if_neg other] at reads
    exact reads
  · intro p reads
    rw [reads_adopt live, if_pos rfl] at reads
    exact free p reads

end Sheet
end Spreadsheet
