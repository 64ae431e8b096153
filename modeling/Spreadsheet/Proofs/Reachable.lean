import Spreadsheet.Proofs.Soundness

/-! The sheets that calls can lead to, and what holds on all of them. -/
namespace Spreadsheet

/-- The calls that may change a sheet. -/
inductive Operation where
  | setInput (a : Address) (raw : String)
  | clear (a : Address)
  | subscribe (a : Address)
  | unsubscribe (l : ListenerId)
  | insertLine (axis : Axis) (i : Nat)
  | deleteLine (axis : Axis) (i : Nat)
  | recalculate

/-- Only whether it went well. -/
def Outcome.discard {α : Type} (o : Outcome α) : Outcome Unit :=
  ⟨o.sheet, o.calls, o.result.map fun _ => ()⟩

namespace Sheet

variable {s t : Sheet} {axis : Axis} {i : Nat}

def apply (s : Sheet) : Operation → Outcome Unit
  | .setInput a raw => s.setInput a raw
  | .clear a => s.clear a
  | .subscribe a => (s.subscribe a).discard
  | .unsubscribe l => s.unsubscribe l
  | .insertLine axis i => s.insertLine axis i
  | .deleteLine axis i => s.deleteLine axis i
  | .recalculate => s.recalculate

/-- A call that would leave a sheet with more lines than a word can count does not return. -/
structure Returns (s : Sheet) (op : Operation) (o : Outcome Unit) : Prop where
  outcome : s.apply op = o
  representable : o.sheet.Representable

/-- From an empty sheet of any size by any calls, also by those that fail. -/
inductive Reachable : Sheet → Prop
  | ofSize {width height : Nat} : (ofSize width height).Representable →
      Reachable (ofSize width height)
  | step {s : Sheet} {op : Operation} {o : Outcome Unit} : Reachable s → s.Returns op o →
      Reachable o.sheet

instance (s : Sheet) : Decidable s.Representable :=
  decidable_of_iff (s.width < indexLimit ∧ s.height < indexLimit)
    ⟨fun h => ⟨h.1, h.2⟩, fun h => ⟨h.width, h.height⟩⟩

theorem Reachable.representable (reachable : s.Reachable) : s.Representable := by
  cases reachable with
  | ofSize small => exact small
  | step _ returns => exact returns.representable

/-! A change of shape leaves the size that the shape has at once, whatever becomes of formulas. -/

theorem Representable.congr (small : t.Representable) (frame : SameFrame s t) : s.Representable := by
  have width := small.width
  have height := small.height
  unfold Sheet.width at width
  rw [frame.columns] at width
  rw [frame.height] at height
  exact ⟨width, height⟩

theorem sameFrame_recalculate (s : Sheet) : SameFrame s s.recalculate.sheet := by
  obtain ⟨order, same⟩ := s.exists_recalculate_eq
  rw [same]
  exact (revalued_foldl_recompute order s).frame

theorem sameFrame_reflow (s : Sheet) (before : CellId → Option Address) :
    SameFrame s (s.reflow before).sheet := by
  rcases s.reflow_cases before with same | ⟨new, same⟩
  · rw [same]
    exact .refl s
  · rw [same]
    exact (sameFrame_restate new s).trans (sameFrame_recalculate _)

theorem Representable.of_insertLine (small : (s.insertLine axis i).sheet.Representable)
    (inside : i ≤ s.lineCount axis) : (s.insertCells axis i).Representable := by
  rw [insertLine_of_le inside] at small
  exact small.congr (sameFrame_reflow _ _)

theorem Representable.insertCells (width : s.width + 1 < indexLimit)
    (height : s.height + 1 < indexLimit) : (s.insertCells axis i).Representable := by
  cases axis with
  | row =>
    constructor
    · simp only [Sheet.insertCells, Sheet.width, List.length_zipWith]
      have := Nat.min_le_left s.columns.length (s.cells.nextIds s.columns.length).length
      unfold Sheet.width at width
      omega
    · exact height
  | column =>
    constructor
    · simp only [Sheet.insertCells, Sheet.width, List.length_insertIdx]
      unfold Sheet.width at width
      split <;> omega
    · simp only [Sheet.insertCells]
      omega

/-! Which error a change of shape ends with. -/

theorem insertLine_of_lt (outside : s.lineCount axis < i) :
    s.insertLine axis i = s.failed (.noSuchLine axis i) := by
  unfold insertLine
  rw [if_pos outside]

theorem deleteLine_of_le (outside : s.lineCount axis ≤ i) :
    s.deleteLine axis i = s.failed (.noSuchLine axis i) := by
  unfold deleteLine
  rw [if_pos outside]

theorem Sound.deleteLine_of_read (sound : s.Sound) (inside : i < s.lineCount axis)
    (read : ¬ s.LineUnread axis i) : ∃ p c, p ∈ s.line axis i ∧ c ∉ s.line axis i ∧ s.Reads c p ∧
      s.deleteLine axis i = s.failed (.referenced (s.position p) (s.position c)) := by
  rw [← sound.wired.readFromOutside?_eq_none, ← ne_eq, Option.ne_none_iff_exists'] at read
  obtain ⟨⟨p, c⟩, found⟩ := read
  obtain ⟨on, off, reads⟩ := sound.wired.readFromOutside?_eq_some found
  refine ⟨p, c, on, off, reads, ?_⟩
  unfold Sheet.deleteLine
  rw [if_neg (Nat.not_le.mpr inside), found]

/-! A change of shape goes through or leaves the sheet as it was. -/

theorem insertLine_cases (s : Sheet) (axis : Axis) (i : Nat) : (s.insertLine axis i).sheet = s ∨
    i ≤ s.lineCount axis ∧ s.insertLine axis i = (s.insertCells axis i).reflow s.addressOf := by
  by_cases inside : i ≤ s.lineCount axis
  · exact .inr ⟨inside, insertLine_of_le inside⟩
  · rw [insertLine_of_lt (Nat.lt_of_not_le inside)]
    exact .inl rfl

theorem Sound.deleteLine_cases (sound : s.Sound) (axis : Axis) (i : Nat) :
    (s.deleteLine axis i).sheet = s ∨ i < s.lineCount axis ∧ s.LineUnread axis i ∧
      s.deleteLine axis i = (s.deleteCells axis i).reflow s.addressOf := by
  by_cases inside : i < s.lineCount axis
  · by_cases unread : s.LineUnread axis i
    · exact .inr ⟨inside, unread, sound.wired.deleteLine_of_unread inside unread⟩
    · obtain ⟨p, c, -, -, -, failed⟩ := sound.deleteLine_of_read inside unread
      rw [failed]
      exact .inl rfl
  · rw [deleteLine_of_le (Nat.le_of_not_lt inside)]
    exact .inl rfl

/-! Every call keeps the sheet sound. -/

theorem Sound.apply (sound : s.Sound) (small : s.Representable) {op : Operation}
    (small' : (s.apply op).sheet.Representable) : (s.apply op).sheet.Sound := by
  cases op with
  | setInput a raw => exact sound.setInput a raw
  | clear a => exact sound.setInput a ""
  | subscribe a => exact sound.subscribe a
  | unsubscribe l => exact sound.unsubscribe l
  | insertLine axis i =>
    show (s.insertLine axis i).sheet.Sound
    rcases s.insertLine_cases axis i with same | ⟨inside, -⟩
    · rw [same]
      exact sound
    · exact (sound.insertLine small (small'.of_insertLine inside) inside).2
  | deleteLine axis i =>
    show (s.deleteLine axis i).sheet.Sound
    rcases sound.deleteLine_cases axis i with same | ⟨inside, unread, -⟩
    · rw [same]
      exact sound
    · exact (sound.deleteLine small inside unread).2
  | recalculate => exact sound.recalculate.2

/-- What holds at first and is kept by every call. -/
theorem Reachable.invariant {P : Sheet → Prop} (reachable : s.Reachable)
    (start : ∀ width height, P (Sheet.ofSize width height))
    (step : ∀ (s : Sheet) (op : Operation), s.Reachable → P s → (s.apply op).sheet.Representable →
      P (s.apply op).sheet) : P s := by
  induction reachable with
  | ofSize => exact start _ _
  | step before returns ih =>
    have small := returns.representable
    rw [← returns.outcome] at small ⊢
    exact step _ _ before ih small

theorem Reachable.sound (reachable : s.Reachable) : s.Sound :=
  reachable.invariant sound_ofSize fun _ _ before sound small =>
    sound.apply before.representable small

theorem Reachable.apply (reachable : s.Reachable) (op : Operation)
    (small : (s.apply op).sheet.Representable) : (s.apply op).sheet.Reachable :=
  .step reachable ⟨rfl, small⟩

/-! A sheet to try things on: `A1` is 2, `B3` watches it through a range that a new row has
widened, and a listener watches `B3`. -/

def sampleFormulas : Sheet :=
  (((ofSize 2 2).apply (.setInput ⟨0, 0⟩ "2")).sheet.apply
    (.setInput ⟨1, 1⟩ "=SUM(A1:A2)*3+B1")).sheet

def sample : Sheet :=
  ((sampleFormulas.apply (.subscribe ⟨1, 1⟩)).sheet.apply (.insertLine .row 1)).sheet

theorem reachable_sample : sample.Reachable := by
  have formulas : sampleFormulas.Reachable := by
    refine .apply (.apply (.ofSize ?_) _ ?_) _ ?_
    · decide
    · decide +kernel
    · decide +kernel
  refine (formulas.apply _ ?_).apply _ ?_
  · decide +kernel
  · decide +kernel

end Sheet
end Spreadsheet
