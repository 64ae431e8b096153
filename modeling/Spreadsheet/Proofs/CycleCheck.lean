import Spreadsheet.Proofs.Reachable

/-! An input is refused for a cycle exactly when it would close one: the check looks only at what
depends on the cell before the edit. -/
namespace Spreadsheet.Sheet
open Relation

variable {s : Sheet} {a : Address} {raw : String} {id : CellId} {formula : Formula}

/-- Who would read whom, if one cell had another formula. -/
def ReadsWith (s : Sheet) (id : CellId) (formula : Formula) (c p : CellId) : Prop :=
  if c = id then p ∈ formula.precedents else s.Reads c p

theorem Acyclic.exists_cycle_iff (acyclic : s.Acyclic) :
    (∃ c, TransGen (s.ReadsWith id formula) c c) ↔
      ∃ p ∈ formula.precedents, ReflTransGen s.Reads p id :=
  exists_cycle_of_redirect_iff acyclic

/-- An input that stands for a formula is checked for what depends on its cell. -/
theorem prepareInput_of_parsed {order : List CellId} (found : s.idAt? a = some id)
    (parsed : Formula.ofInput s.resolver raw = .ok formula)
    (walked : s.dependencyOrder [id] = .ok order) : s.prepareInput a raw =
      (formula.precedents.find? (· ∈ order)).elim (.ok (id, formula, order)) fun looped =>
        .error (s.circular id (s.dependencyPath id looped ++ [id])) := by
  unfold prepareInput
  rw [idAt_eq_ok.mpr found, ok_bind, mapError_eq_ok.mpr parsed, ok_bind, walked, ok_bind]
  cases formula.precedents.find? (· ∈ order) <;> rfl

theorem Sound.exists_downstream (sound : s.Sound) (id : CellId) : ∃ order,
    s.dependencyOrder [id] = .ok order ∧ ∀ p, p ∈ order ↔ ReflTransGen s.Reads p id := by
  obtain ⟨order, walked⟩ := sound.wired.exists_dependencyOrder sound.acyclic [id]
  exact ⟨order, walked, fun p => by simp [sound.wired.mem_dependencyOrder walked]⟩

/-- The two ways in which an input can go that stands for a formula. -/
theorem Sound.prepareInput_cases (sound : s.Sound) (found : s.idAt? a = some id)
    (parsed : Formula.ofInput s.resolver raw = .ok formula) :
    (∃ order, s.prepareInput a raw = .ok (id, formula, order)) ∧
        (∀ p ∈ formula.precedents, ¬ ReflTransGen s.Reads p id) ∨
      (∃ path, s.prepareInput a raw = .error (s.circular id path)) ∧
        ∃ p ∈ formula.precedents, ReflTransGen s.Reads p id := by
  obtain ⟨order, walked, downstream⟩ := sound.exists_downstream id
  rw [prepareInput_of_parsed found parsed walked]
  cases looped : formula.precedents.find? (· ∈ order) with
  | none =>
    refine .inl ⟨⟨order, rfl⟩, fun p read path => ?_⟩
    have away := List.find?_eq_none.mp looped p read
    exact away (decide_eq_true ((downstream p).mpr path))
  | some p =>
    have inside : p ∈ order := by simpa using List.find?_some looped
    exact .inr ⟨⟨_, rfl⟩, p, List.mem_of_find?_eq_some looped, (downstream p).mp inside⟩

theorem setInput_circular_iff (reachable : s.Reachable) (found : s.idAt? a = some id)
    (parsed : Formula.ofInput s.resolver raw = .ok formula) :
    ((∃ cell path, (s.setInput a raw).result = .error (.circular cell path)) ↔
      ∃ c, TransGen (s.ReadsWith id formula) c c) ∧
    ((s.setInput a raw).result = .ok () ↔ ¬ ∃ c, TransGen (s.ReadsWith id formula) c c) := by
  have sound := reachable.sound
  rw [sound.acyclic.exists_cycle_iff]
  rcases sound.prepareInput_cases found parsed with
    ⟨⟨order, prepared⟩, away⟩ | ⟨⟨path, looped⟩, cycle⟩
  · rw [(setInput_of_prepared prepared).1]
    simpa using away
  · rw [setInput_of_error looped]
    simpa [failed, circular] using cycle

/-- `B3` reads `A2` through its range: `A2` may not read `B3`, but it may read `B1`. -/
theorem setInput_circular_iff_sample :
    (∃ c, TransGen (sample.ReadsWith ⟨4⟩ (.binary .mul (.reference ⟨3⟩) (.number 2))) c c) ∧
    ¬ ∃ c, TransGen (sample.ReadsWith ⟨4⟩ (.reference ⟨2⟩)) c c := by
  have found : sample.idAt? ⟨0, 1⟩ = some ⟨4⟩ := by decide +kernel
  have closing : Formula.ofInput sample.resolver "=B3*2" =
      .ok (.binary .mul (.reference ⟨3⟩) (.number 2)) := by decide +kernel
  have harmless : Formula.ofInput sample.resolver "=B1" = .ok (.reference ⟨2⟩) := by decide +kernel
  constructor
  · refine (setInput_circular_iff reachable_sample found closing).1.mp
      ⟨⟨0, 1⟩, [⟨0, 1⟩, ⟨1, 2⟩, ⟨0, 1⟩], ?_⟩
    decide +kernel
  · refine (setInput_circular_iff reachable_sample found harmless).2.mp ?_
    decide +kernel

end Spreadsheet.Sheet
