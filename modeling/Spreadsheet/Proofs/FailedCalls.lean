import Spreadsheet.Proofs.Reachable

/-! Which calls fail, and that those that do leave nothing behind. -/
namespace Spreadsheet.Sheet

variable {s : Sheet} {axis : Axis} {i : Nat}

theorem failed_setInput {a : Address} {raw : String} {e : SheetError}
    (error : (s.setInput a raw).result = .error e) : s.setInput a raw = s.failed e :=
  setInput_of_error (prepareInput_of_refused error)

theorem failed_subscribe {a : Address} {e : SheetError}
    (error : (s.subscribe a).result = .error e) : s.subscribe a = s.failed e := by
  unfold subscribe at error ⊢
  split
  · rename_i failure
    rw [failure] at error
    cases error
    rfl
  · rename_i found
    rw [found] at error
    cases error

theorem failed_unsubscribe {l : ListenerId} {e : SheetError}
    (error : (s.unsubscribe l).result = .error e) : s.unsubscribe l = s.failed e := by
  unfold unsubscribe at error ⊢
  split
  · rename_i missing
    rw [missing] at error
    cases error
    rfl
  · rename_i found
    rw [found] at error
    cases error

/-- An insertion fails only for want of a place. -/
theorem Sound.failed_insertLine (sound : s.Sound) (small : s.Representable)
    (small' : i ≤ s.lineCount axis → (s.insertCells axis i).Representable) {e : SheetError}
    (error : (s.insertLine axis i).result = .error e) :
    s.insertLine axis i = s.failed e ∧ s.lineCount axis < i ∧ e = .noSuchLine axis i := by
  by_cases inside : i ≤ s.lineCount axis
  · rw [(sound.insertLine small (small' inside) inside).1] at error
    cases error
  · have outside := Nat.lt_of_not_le inside
    rw [insertLine_of_lt outside] at error ⊢
    cases error
    exact ⟨rfl, outside, rfl⟩

/-- A deletion fails only for want of the line, or for a reader of it. -/
theorem Sound.failed_deleteLine (sound : s.Sound) (small : s.Representable) {e : SheetError}
    (error : (s.deleteLine axis i).result = .error e) : s.deleteLine axis i = s.failed e ∧
      (s.lineCount axis ≤ i ∧ e = .noSuchLine axis i ∨
        ∃ p c, p ∈ s.line axis i ∧ c ∉ s.line axis i ∧ s.Reads c p ∧
          e = .referenced (s.position p) (s.position c)) := by
  by_cases inside : i < s.lineCount axis
  · by_cases unread : s.LineUnread axis i
    · rw [(sound.deleteLine small inside unread).1] at error
      cases error
    · obtain ⟨p, c, on, off, reads, failed⟩ := sound.deleteLine_of_read inside unread
      rw [failed] at error ⊢
      cases error
      exact ⟨rfl, .inr ⟨p, c, on, off, reads, rfl⟩⟩
  · have outside := Nat.le_of_not_lt inside
    rw [deleteLine_of_le outside] at error ⊢
    cases error
    exact ⟨rfl, .inl ⟨outside, rfl⟩⟩

theorem unchanged_of_error (reachable : s.Reachable) {op : Operation} {o : Outcome Unit}
    {e : SheetError} (returns : s.Returns op o) (error : o.result = .error e) :
    o.sheet = s ∧ o.calls = [] := by
  have sound := reachable.sound
  have small := reachable.representable
  obtain ⟨rfl, small'⟩ := returns
  cases op with
  | setInput a raw =>
    have failed := failed_setInput error
    exact ⟨congrArg Outcome.sheet failed, congrArg Outcome.calls failed⟩
  | clear a =>
    have failed := failed_setInput error
    exact ⟨congrArg Outcome.sheet failed, congrArg Outcome.calls failed⟩
  | subscribe a =>
    cases result : (s.subscribe a).result with
    | error e' =>
      have failed := failed_subscribe result
      exact ⟨congrArg Outcome.sheet failed, congrArg Outcome.calls failed⟩
    | ok l =>
      simp only [Sheet.apply, Outcome.discard, result, Except.map] at error
      cases error
  | unsubscribe l =>
    have failed := failed_unsubscribe error
    exact ⟨congrArg Outcome.sheet failed, congrArg Outcome.calls failed⟩
  | insertLine axis i =>
    obtain ⟨failed, -⟩ := sound.failed_insertLine small small'.of_insertLine error
    exact ⟨congrArg Outcome.sheet failed, congrArg Outcome.calls failed⟩
  | deleteLine axis i =>
    obtain ⟨failed, -⟩ := sound.failed_deleteLine small error
    exact ⟨congrArg Outcome.sheet failed, congrArg Outcome.calls failed⟩
  | recalculate =>
    rw [show (s.apply .recalculate).result = .ok () from sound.recalculate.1] at error
    cases error

/-- `B3` reads `A1`, so the first column cannot go. -/
theorem unchanged_of_error_sample : (sample.apply (.deleteLine .column 0)).sheet = sample ∧
    (sample.apply (.deleteLine .column 0)).calls = [] := by
  have error : (sample.apply (.deleteLine .column 0)).result = .error (.referenced ⟨0, 0⟩ ⟨1, 2⟩) := by
    decide +kernel
  exact unchanged_of_error reachable_sample ⟨rfl, by decide +kernel⟩ error

theorem Laid.lineUnread_iff (laid : s.Laid) : s.LineUnread axis i ↔
    ∀ a b p c, s.idAt? a = some p → s.idAt? b = some c → s.Reads c p →
      a.along axis = i → b.along axis = i := by
  unfold LineUnread
  constructor
  · intro unread a b p c atA atB reads on
    obtain ⟨d, on, atD⟩ := mem_line.mp (unread c p reads (mem_line.mpr ⟨a, on, atA⟩))
    rw [laid.unique b d c atB atD]
    exact on
  · intro unread c p reads on
    obtain ⟨a, on, atA⟩ := mem_line.mp on
    obtain ⟨cell, live, -⟩ := reads_iff.mp reads
    obtain ⟨b, atB⟩ := (laid.live c).mpr (by simp [live])
    exact mem_line.mpr ⟨b, unread a b p c atA atB reads on, atB⟩

theorem Laid.position_of_mem_line (laid : s.Laid) {p : CellId} (on : p ∈ s.line axis i) :
    s.idAt? (s.position p) = some p ∧ (s.position p).along axis = i := by
  obtain ⟨a, along, found⟩ := mem_line.mp on
  rw [laid.position_of_idAt? found]
  exact ⟨found, along⟩

theorem Laid.position_of_not_mem_line (laid : s.Laid) {c : CellId} (live : (s.cells.get? c).isSome)
    (off : c ∉ s.line axis i) :
    s.idAt? (s.position c) = some c ∧ (s.position c).along axis ≠ i := by
  have here := laid.position_eq live
  exact ⟨here, fun on => off (mem_line.mpr ⟨_, on, here⟩)⟩

/-- Lines can be inserted anywhere, and deleted unless a cell off the line reads one on it. -/
theorem line_changes_succeed_iff (reachable : s.Reachable) (width : s.width + 1 < indexLimit)
    (height : s.height + 1 < indexLimit) (axis : Axis) (i : Nat) :
    ((s.insertLine axis i).result = .ok () ↔ i ≤ s.lineCount axis) ∧
    ((s.deleteLine axis i).result = .ok () ↔ i < s.lineCount axis ∧
      ∀ a b p c, s.idAt? a = some p → s.idAt? b = some c → s.Reads c p →
        a.along axis = i → b.along axis = i) ∧
    (∀ e, (s.insertLine axis i).result = .error e → e = .noSuchLine axis i) ∧
    ∀ e, (s.deleteLine axis i).result = .error e → e = .noSuchLine axis i ∨
      ∃ a b p c, e = .referenced a b ∧ s.idAt? a = some p ∧ s.idAt? b = some c ∧
        a.along axis = i ∧ b.along axis ≠ i ∧ s.Reads c p := by
  have sound := reachable.sound
  have small := reachable.representable
  have small' : (s.insertCells axis i).Representable := .insertCells width height
  refine ⟨⟨fun ok => ?_, fun inside => (sound.insertLine small small' inside).1⟩,
    ⟨fun ok => ?_, fun h => ?_⟩, fun e error => ?_, fun e error => ?_⟩
  · by_contra outside
    rw [insertLine_of_lt (Nat.lt_of_not_le outside)] at ok
    cases ok
  · by_cases inside : i < s.lineCount axis
    · refine ⟨inside, sound.laid.lineUnread_iff.mp ?_⟩
      by_contra read
      obtain ⟨p, c, -, -, -, failed⟩ := sound.deleteLine_of_read inside read
      rw [failed] at ok
      cases ok
    · rw [deleteLine_of_le (Nat.le_of_not_lt inside)] at ok
      cases ok
  · exact (sound.deleteLine small h.1 (sound.laid.lineUnread_iff.mpr h.2)).1
  · exact (sound.failed_insertLine small (fun _ => small') error).2.2
  · obtain ⟨-, ⟨-, missing⟩ | ⟨p, c, on, off, reads, referenced⟩⟩ := sound.failed_deleteLine small error
    · exact .inl missing
    · obtain ⟨reader, live, -⟩ := reads_iff.mp reads
      obtain ⟨atP, onLine⟩ := sound.laid.position_of_mem_line on
      obtain ⟨atC, offLine⟩ := sound.laid.position_of_not_mem_line (by simp [live]) off
      exact .inr ⟨_, _, p, c, referenced, atP, atC, onLine, offLine, reads⟩

theorem line_changes_succeed_iff_sample : (sample.insertLine .row 3).result = .ok () ∧
    ¬ (sample.insertLine .row 4).result = .ok () := by
  have width : sample.width + 1 < indexLimit := by decide +kernel
  have height : sample.height + 1 < indexLimit := by decide +kernel
  constructor
  · exact (line_changes_succeed_iff reachable_sample width height .row 3).1.mpr (by decide +kernel)
  · rw [(line_changes_succeed_iff reachable_sample width height .row 4).1]
    decide +kernel

end Spreadsheet.Sheet
