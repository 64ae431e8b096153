import Spreadsheet.Proofs.CycleCheck
import Spreadsheet.Proofs.ShortestPath

/-! An input that would close a cycle is refused with the cycle: by a shortest way from its cell to
the first cell of the formula that depends on it. -/
namespace Spreadsheet.Sheet
open Relation

variable {s : Sheet} {a cell : Address} {raw : String} {id p : CellId} {formula : Formula}
  {path : List Address}

/-- The formula at `b` reads the cell at `a`. -/
def IsReadAt (s : Sheet) (a b : Address) : Prop :=
  ∃ p c, s.idAt? a = some p ∧ s.idAt? b = some c ∧ s.Reads c p

/-- The first cell of a formula, as it names them, that reads a given cell at any remove or is that
cell. -/
def IsFirstLoop (s : Sheet) (id : CellId) (formula : Formula) (p : CellId) : Prop :=
  ∃ before behind, formula.precedents = before ++ p :: behind ∧ ReflTransGen s.Reads p id ∧
    ∀ q ∈ before, ¬ ReflTransGen s.Reads q id

/-! From identifiers to addresses. -/

theorem Sound.isReadAt_position (sound : s.Sound) {c : CellId} (reads : s.Reads c p) :
    s.IsReadAt (s.position p) (s.position c) := by
  obtain ⟨reader, found, -⟩ := reads_iff.mp reads
  exact ⟨p, c, sound.laid.position_eq (sound.wired.read_live c p reads),
    sound.laid.position_eq (Option.isSome_of_eq_some found), reads⟩

theorem Laid.position_inj (laid : s.Laid) {c : CellId} (live : (s.cells.get? p).isSome)
    (live' : (s.cells.get? c).isSome) (same : s.position p = s.position c) : p = c := by
  have here := laid.position_eq live
  rw [same, laid.position_eq live'] at here
  exact (Option.some.inj here).symm

/-- A chain of addresses is a chain of the cells at them. -/
theorem isPath_cells {b : Address} (atStart : s.idAt? a = some id) (atEnd : s.idAt? b = some p)
    (h : Graph.IsPath s.IsReadAt a b path) :
    Graph.IsPath (Function.swap s.Reads) id p (path.map fun c => (s.idAt? c).getD id) := by
  have carried : ∀ b c, s.IsReadAt b c →
      Function.swap s.Reads ((s.idAt? b).getD id) ((s.idAt? c).getD id) := by
    rintro b c ⟨q, d, atB, atC, reads⟩
    simp only [atB, atC, Option.getD_some]
    exact reads
  have cells := h.map carried
  simp only [atStart, atEnd, Option.getD_some] at cells
  exact cells

/-! The path of the error. -/

/-- The cells of the path, without the return to the first one. -/
theorem Sound.dependencyPath_shortest (sound : s.Sound) (live : (s.cells.get? id).isSome)
    (depends : ReflTransGen s.Reads p id) : (s.dependencyPath id p).Nodup ∧
      Graph.IsShortestPath (Function.swap s.Reads) id p (s.dependencyPath id p) := by
  have edges : (fun q c => c ∈ s.dependents q) = Function.swap s.Reads := by
    funext q c
    exact propext sound.wired.mem_dependents
  have inside : ∀ q, ∀ c ∈ s.dependents q, c ∈ s.cells.ids := by
    intro q c reads
    obtain ⟨reader, found, -⟩ := reads_iff.mp (sound.wired.mem_dependents.mp reads)
    exact CellStore.mem_ids.mpr (Option.isSome_of_eq_some found)
  have way : ReflTransGen (fun q c => c ∈ s.dependents q) id p := by
    rw [edges]
    exact reflTransGen_swap.mpr depends
  obtain ⟨chain, found, nodup, shortest⟩ :=
    Graph.shortestPath?_eq_some (CellStore.mem_ids.mpr live) inside way
  rw [edges] at shortest
  unfold dependencyPath
  rw [found]
  exact ⟨nodup, shortest⟩

/-- The same at the addresses of the cells. -/
theorem Sound.positions_shortest (sound : s.Sound) (found : s.idAt? a = some id)
    (live : (s.cells.get? p).isSome) (depends : ReflTransGen s.Reads p id) :
    ((s.dependencyPath id p).map s.position).Nodup ∧
      Graph.IsShortestPath s.IsReadAt a (s.position p) ((s.dependencyPath id p).map s.position) := by
  have start := sound.laid.live_of_idAt? found
  obtain ⟨nodup, cells⟩ := sound.dependencyPath_shortest start depends
  have onSheet : ∀ q ∈ s.dependencyPath id p, (s.cells.get? q).isSome := by
    refine cells.forall_mem start fun q c reads _ => ?_
    obtain ⟨reader, found, -⟩ := reads_iff.mp reads
    exact Option.isSome_of_eq_some found
  refine ⟨nodup.map_on fun q here c there => ?_, ?_, fun other way => ?_⟩
  · exact sound.laid.position_inj (onSheet q here) (onSheet c there)
  · rw [← sound.laid.position_of_idAt? found]
    exact cells.map fun q c => sound.isReadAt_position
  · have shorter := cells.shortest _ (isPath_cells found (sound.laid.position_eq live) way)
    rwa [List.length_map] at shorter ⊢

/-- Only a formula can close a cycle. -/
theorem parsed_of_circular (refused : s.prepareInput a raw = .error (.circular cell path)) :
    ∃ id formula, s.idAt? a = some id ∧ Formula.ofInput s.resolver raw = .ok formula := by
  unfold prepareInput at refused
  cases found : s.idAt? a with
  | none =>
    have outside : s.idAt a = .error (.outside a) := by
      unfold idAt
      rw [found]
    rw [outside] at refused
    cases refused
  | some id =>
    rw [idAt_eq_ok.mpr found, ok_bind] at refused
    cases parsed : Formula.ofInput s.resolver raw with
    | error e =>
      rw [parsed] at refused
      cases refused
    | ok formula => exact ⟨id, formula, rfl, rfl⟩

theorem setInput_circular_path (reachable : s.Reachable)
    (refused : (s.setInput a raw).result = .error (.circular cell path)) :
    cell = a ∧ ∃ id formula p chain last, s.idAt? a = some id ∧
      Formula.ofInput s.resolver raw = .ok formula ∧ s.IsFirstLoop id formula p ∧
      path = chain ++ [a] ∧ s.idAt? last = some p ∧ chain.Nodup ∧
      Graph.IsShortestPath s.IsReadAt a last chain := by
  have sound := reachable.sound
  have prepared := prepareInput_of_refused refused
  obtain ⟨id, formula, found, parsed⟩ := parsed_of_circular prepared
  obtain ⟨order, walked, downstream⟩ := sound.exists_downstream id
  rw [prepareInput_of_parsed found parsed walked] at prepared
  cases looped : formula.precedents.find? (· ∈ order) with
  | none =>
    rw [looped] at prepared
    cases prepared
  | some p =>
    rw [looped, Option.elim_some, circular, sound.laid.position_of_idAt? found, List.map_append,
      List.map_singleton, sound.laid.position_of_idAt? found] at prepared
    cases prepared
    obtain ⟨inside, before, behind, split, earlier⟩ := List.find?_eq_some_iff_append.mp looped
    have depends := (downstream p).mp (of_decide_eq_true inside)
    have live := live_of_fitsOn sound.laid (Formula.ofInput_fits parsed) p
      (List.mem_of_find?_eq_some looped)
    obtain ⟨nodup, shortest⟩ := sound.positions_shortest found live depends
    refine ⟨rfl, id, formula, p, _, s.position p, found, parsed, ⟨before, behind, split, depends, ?_⟩,
      rfl, sound.laid.position_eq live, nodup, shortest⟩
    intro q early path
    have away := earlier q early
    rw [decide_eq_true ((downstream q).mpr path)] at away
    cases away

/-- A cell that would read itself is on its path twice. -/
example : (sample.setInput ⟨0, 0⟩ "=A1*2").result =
    .error (.circular ⟨0, 0⟩ [⟨0, 0⟩, ⟨0, 0⟩]) := by decide +kernel

/-- Of the cells that the input names `B3` is the first that depends on `A2`, through its range. -/
theorem setInput_circular_path_sample :
    (sample.setInput ⟨0, 1⟩ "=B1+B3+A2").result =
        .error (.circular ⟨0, 1⟩ [⟨0, 1⟩, ⟨1, 2⟩, ⟨0, 1⟩]) ∧
      (∃ id formula, sample.IsFirstLoop id formula ⟨3⟩) ∧
      Graph.IsShortestPath sample.IsReadAt ⟨0, 1⟩ ⟨1, 2⟩ [⟨0, 1⟩, ⟨1, 2⟩] := by
  have refused : (sample.setInput ⟨0, 1⟩ "=B1+B3+A2").result =
      .error (.circular ⟨0, 1⟩ [⟨0, 1⟩, ⟨1, 2⟩, ⟨0, 1⟩]) := by decide +kernel
  obtain ⟨-, id, formula, p, chain, last, -, -, first, split, atLast, -, shortest⟩ :=
    setInput_circular_path reachable_sample refused
  have split' : [⟨0, 1⟩, ⟨1, 2⟩] ++ [⟨0, 1⟩] = chain ++ [⟨0, 1⟩] := split
  obtain rfl := List.append_cancel_right split'
  obtain rfl : ⟨1, 2⟩ = last := Option.some.inj shortest.last
  have here : sample.idAt? ⟨1, 2⟩ = some ⟨3⟩ := by decide +kernel
  rw [here, Option.some.injEq] at atLast
  exact ⟨refused, ⟨id, formula, atLast ▸ first⟩, shortest⟩

end Spreadsheet.Sheet
