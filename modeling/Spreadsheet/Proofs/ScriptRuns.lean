import Spreadsheet.Proofs.FailedCalls
import Spreadsheet.Script

/-! Scripts run line by line: a text behind whole lines runs on the sheet that they leave, and a
line that fails leaves the sheet as it found it. -/
namespace Spreadsheet

namespace Text

theorem splitOn_ne_nil (sep : Char → Bool) (s : List Char) : splitOn sep s ≠ [] := by
  cases s with
  | nil => simp [splitOn]
  | cons c s =>
    unfold splitOn
    split
    · simp
    · split <;> simp

theorem splitOn_append_cons {sep : Char → Bool} {c : Char} (separates : sep c) (s t : List Char) :
    splitOn sep (s ++ c :: t) = splitOn sep s ++ splitOn sep t := by
  induction s with
  | nil => simp [splitOn, separates]
  | cons d s ih =>
    rw [List.cons_append, splitOn, splitOn, ih]
    split
    · rfl
    · cases pieces : splitOn sep s with
      | nil => exact absurd pieces (splitOn_ne_nil sep s)
      | cons piece pieces => rfl

theorem splitOn_of_forall {sep : Char → Bool} {s : List Char} (none : ∀ c ∈ s, sep c = false) :
    splitOn sep s = [s] := by
  induction s with
  | nil => rfl
  | cons c s ih =>
    obtain ⟨here, later⟩ := List.forall_mem_cons.mp none
    rw [splitOn, ih later, here]
    rfl

theorem length_splitOn (sep : Char → Bool) (s : List Char) :
    (splitOn sep s).length = s.countP sep + 1 := by
  induction s with
  | nil => rfl
  | cons c s ih =>
    rw [splitOn, List.countP_cons]
    split
    · rw [List.length_cons, ih]
    · rw [Nat.add_zero, ← ih]
      cases pieces : splitOn sep s with
      | nil => exact absurd pieces (splitOn_ne_nil sep s)
      | cons piece pieces => rfl

/-- No line is left open at the end. -/
def IsWhole (s : List Char) : Prop := s = [] ∨ ∃ t, s = t ++ ['\n']

theorem lines_lineFeed (s : List Char) : lines (s ++ ['\n']) = splitOn (· == '\n') s := by
  unfold lines
  rw [splitOn_append_cons (by decide)]
  simp [splitOn]

theorem lines_append {s : List Char} (whole : IsWhole s) (t : List Char) :
    lines (s ++ t) = lines s ++ lines t := by
  rcases whole with rfl | ⟨s, rfl⟩
  · rfl
  · have pieces := splitOn_ne_nil (· == '\n') t
    rw [lines_lineFeed, List.append_assoc, List.singleton_append]
    unfold lines
    rw [splitOn_append_cons (by decide)]
    dsimp only
    rw [List.getLast?_append_of_ne_nil _ pieces]
    split
    · rw [List.dropLast_append_of_ne_nil pieces]
    · rfl

theorem length_lines {s : List Char} (whole : IsWhole s) : (lines s).length = s.count '\n' := by
  rcases whole with rfl | ⟨s, rfl⟩
  · rfl
  · rw [lines_lineFeed, length_splitOn, List.count_append, List.count_singleton_self, List.count]

theorem IsWhole.append {s t : List Char} (first : IsWhole s) (second : IsWhole t) :
    IsWhole (s ++ t) := by
  rcases second with rfl | ⟨t, rfl⟩
  · rwa [List.append_nil]
  · exact .inr ⟨s ++ t, (List.append_assoc ..).symm⟩

/-- A line that is not the last ends in a line feed. -/
theorem exists_of_lines_eq_cons {s line : List Char} {rest : List (List Char)}
    (h : lines s = line :: rest) (more : rest ≠ []) :
    ∃ t, s = line ++ ['\n'] ++ t ∧ lines (line ++ ['\n']) = [line] ∧ lines t = rest := by
  by_cases feed : '\n' ∈ s
  · obtain ⟨first, t, rfl, none⟩ := List.eq_append_cons_of_mem feed
    have single : lines (first ++ ['\n']) = [first] := by
      rw [lines_lineFeed]
      exact splitOn_of_forall fun c member => beq_false_of_ne fun same => none (same ▸ member)
    rw [← List.singleton_append, ← List.append_assoc, lines_append (.inr ⟨first, rfl⟩), single] at h
    obtain ⟨rfl, rfl⟩ := List.cons.inj h
    exact ⟨t, by rw [List.append_assoc, List.singleton_append], single, rfl⟩
  · have single : splitOn (· == '\n') s = [s] :=
      splitOn_of_forall fun c member => beq_false_of_ne fun same => feed (same ▸ member)
    unfold lines at h
    rw [single] at h
    dsimp only at h
    split at h
    · cases h
    · cases h
      contradiction

/-- The lines before another are a text of their own. -/
theorem exists_of_lines_eq_append {s : List Char} {first rest : List (List Char)}
    (h : lines s = first ++ rest) (more : rest ≠ []) :
    ∃ before behind, s = before ++ behind ∧ IsWhole before ∧ lines before = first := by
  induction first generalizing s with
  | nil => exact ⟨[], s, rfl, .inl rfl, rfl⟩
  | cons line first ih =>
    obtain ⟨t, rfl, single, later⟩ :=
      exists_of_lines_eq_cons h (List.append_ne_nil_of_right_ne_nil _ more)
    obtain ⟨before, behind, rfl, whole, same⟩ := ih later
    have closed : IsWhole (line ++ ['\n']) := .inr ⟨line, rfl⟩
    refine ⟨line ++ ['\n'] ++ before, behind, (List.append_assoc ..).symm, closed.append whole, ?_⟩
    rw [lines_append closed, single, same, List.singleton_append]

end Text

/-- An error `n` lines further down. -/
def ScriptError.later (n : Nat) (e : ScriptError) : ScriptError := { e with line := e.line + n }

namespace Sheet

variable {s t : Sheet} {number : Nat} {first rest lines : List (List Char)} {line : List Char}
  {e : ScriptError}

/-! Runs of lines. -/

theorem runLines_append : s.runLines number (first ++ rest) =
    match s.runLines number first with
    | (t, none) => t.runLines (number + first.length) rest
    | (t, some e) => (t, some e) := by
  induction first generalizing s number with
  | nil => rfl
  | cons line first ih =>
    rw [List.cons_append, runLines, runLines, List.length_cons]
    rcases s.runLine line with ⟨t, failure⟩
    cases failure with
    | none =>
      have moved : number + (first.length + 1) = number + 1 + first.length := by omega
      simp only [ih, moved]
    | some cause => rfl

theorem runLines_later (n : Nat) : s.runLines (number + n) lines =
    ((s.runLines number lines).1, (s.runLines number lines).2.map (·.later n)) := by
  induction lines generalizing s number with
  | nil => rfl
  | cons line lines ih =>
    rw [runLines, runLines]
    rcases s.runLine line with ⟨t, failure⟩
    cases failure with
    | none =>
      have moved : number + n + 1 = number + 1 + n := by omega
      simp only [moved, ih]
    | some cause => rfl

/-- The lines before the one that fails go well. -/
theorem exists_of_runLines_error (failed : s.runLines number lines = (t, some e)) :
    ∃ before line behind u, lines = before ++ line :: behind ∧ e.line = number + before.length ∧
      s.runLines number before = (u, none) ∧ u.runLine line = (t, some e.cause) := by
  induction lines generalizing s number with
  | nil => cases failed
  | cons line lines ih =>
    rw [runLines] at failed
    cases ran : s.runLine line with
    | mk u failure =>
      rw [ran] at failed
      cases failure with
      | some cause =>
        cases failed
        exact ⟨[], line, lines, s, rfl, rfl, rfl, ran⟩
      | none =>
        obtain ⟨before, line', behind, v, rfl, place, good, bad⟩ := ih failed
        refine ⟨line :: before, line', behind, v, rfl, ?_, ?_, bad⟩
        · rw [place, List.length_cons]
          omega
        · rw [runLines, ran]
          exact good

/-! Commands as calls. -/

theorem exists_operation (s : Sheet) (command : Command) : ∃ op, s.perform command = s.apply op := by
  cases command with
  | set a raw => exact ⟨.setInput a raw, rfl⟩
  | clear a => exact ⟨.clear a, rfl⟩
  | insert axis i => exact ⟨.insertLine axis i, rfl⟩
  | delete axis i => exact ⟨.deleteLine axis i, rfl⟩

theorem Reachable.runLine (reachable : s.Reachable) (small : (s.runLine line).1.Representable) :
    (s.runLine line).1.Reachable := by
  have moved : (s.runLine line).1 = s ∨ ∃ op, (s.runLine line).1 = (s.apply op).sheet := by
    unfold Sheet.runLine
    split
    · exact .inl rfl
    · exact .inl rfl
    · rename_i command _
      obtain ⟨op, same⟩ := s.exists_operation command
      rw [same]
      right
      dsimp only
      split
      · exact ⟨op, rfl⟩
      · exact ⟨op, rfl⟩
  rcases moved with same | ⟨op, same⟩
  · rw [same]
    exact reachable
  · rw [same] at small ⊢
    exact reachable.apply op small

theorem Sound.failed_perform (sound : s.Sound) (small : s.Representable) {command : Command}
    (small' : (s.perform command).sheet.Representable) {cause : SheetError}
    (error : (s.perform command).result = .error cause) : s.perform command = s.failed cause := by
  cases command with
  | set a raw => exact failed_setInput error
  | clear a => exact failed_setInput error
  | insert axis i => exact (sound.failed_insertLine small small'.of_insertLine error).1
  | delete axis i => exact (sound.failed_deleteLine small error).1

/-- A line that fails leaves the sheet alone. -/
theorem Reachable.eq_of_runLine_error (reachable : s.Reachable) {cause : CommandError}
    (failed : s.runLine line = (t, some cause)) (small : t.Representable) : t = s := by
  unfold Sheet.runLine at failed
  split at failed
  · cases failed
  · cases failed
    rfl
  · rename_i command _
    dsimp only at failed
    split at failed
    · cases failed
    · rename_i error
      cases failed
      rw [reachable.sound.failed_perform reachable.representable small error]
      rfl

/-- A script returns unless one of its lines would leave a sheet with more lines than a word can
count. -/
def ScriptReturns (s : Sheet) (script : String) : Prop :=
  ∀ n ≤ (Text.lines script.toList).length,
    (s.runLines 1 ((Text.lines script.toList).take n)).1.Representable

instance (s : Sheet) (script : String) : Decidable (s.ScriptReturns script) :=
  inferInstanceAs (Decidable (∀ n ≤ (Text.lines script.toList).length,
    (s.runLines 1 ((Text.lines script.toList).take n)).1.Representable))

theorem Reachable.runLines (reachable : s.Reachable)
    (small : ∀ n ≤ lines.length, (s.runLines number (lines.take n)).1.Representable) :
    (s.runLines number lines).1.Reachable := by
  induction lines generalizing s number with
  | nil => exact reachable
  | cons line lines ih =>
    have one : (s.runLines number [line]).1 = (s.runLine line).1 := by
      rw [Sheet.runLines]
      rcases s.runLine line with ⟨t, _ | cause⟩ <;> rfl
    have first := small 1 (Nat.succ_le_succ (Nat.zero_le _))
    rw [List.take_succ_cons, List.take_zero, one] at first
    have reached := reachable.runLine first
    simp only [Sheet.runLines] at small ⊢
    cases ran : s.runLine line with
    | mk t failure =>
      rw [ran] at reached
      cases failure with
      | some cause => exact reached
      | none =>
        refine ih reached fun n inside => ?_
        have behind := small (n + 1) (Nat.succ_le_succ inside)
        rw [List.take_succ_cons, Sheet.runLines, ran] at behind
        exact behind

/-! Scripts. -/

theorem runScript_append_of_whole {before : String} (whole : Text.IsWhole before.toList)
    (behind : String) : s.runScript (before ++ behind) =
      match s.runScript before with
      | (t, none) => ((t.runScript behind).1,
          (t.runScript behind).2.map (·.later (before.toList.count '\n')))
      | (t, some e) => (t, some e) := by
  unfold runScript
  rw [String.toList_append, Text.lines_append whole, runLines_append, Text.length_lines whole]
  simp only [runLines_later]

/-- A script that fails has done what the lines before its error do. -/
theorem Reachable.exists_of_runScript_error (reachable : s.Reachable) {script : String}
    (small : s.ScriptReturns script) (failed : s.runScript script = (t, some e)) :
    ∃ before behind, script = before ++ behind ∧ Text.IsWhole before.toList ∧
      e.line = before.toList.count '\n' + 1 ∧ s.runScript before = (t, none) := by
  unfold runScript at failed ⊢
  obtain ⟨first, line, rest, u, split, place, good, bad⟩ := exists_of_runLines_error failed
  obtain ⟨before, behind, text, whole, same⟩ :=
    Text.exists_of_lines_eq_append split (List.cons_ne_nil line rest)
  have reached : u.Reachable := by
    have small' : ∀ n ≤ first.length, (s.runLines 1 (first.take n)).1.Representable := by
      intro n inside
      rw [← List.take_append_of_le_length inside, ← split]
      refine small n (inside.trans ?_)
      rw [split, List.length_append]
      exact Nat.le_add_right _ _
    have reached := reachable.runLines small'
    rwa [good] at reached
  have returns := small _ le_rfl
  rw [List.take_length, failed] at returns
  obtain rfl := reached.eq_of_runLine_error bad returns
  refine ⟨String.ofList before, String.ofList behind, ?_, ?_, ?_, ?_⟩
  · rw [← String.ofList_append, ← text, String.ofList_toList]
  · rwa [String.toList_ofList]
  · rw [place, String.toList_ofList, ← Text.length_lines whole, same, Nat.add_comm]
  · rw [String.toList_ofList, same, good]

theorem runScript_append (s : Sheet) :
    (∀ first rest : String, Text.IsWhole first.toList →
      (∀ t u result, s.runScript first = (t, none) → t.runScript rest = (u, result) →
        s.runScript (first ++ rest) = (u, result.map (·.later (first.toList.count '\n')))) ∧
      ∀ t e, s.runScript first = (t, some e) → s.runScript (first ++ rest) = (t, some e)) ∧
    ∀ script t e, s.Reachable → s.ScriptReturns script → s.runScript script = (t, some e) →
      ∃ before behind, script = before ++ behind ∧ Text.IsWhole before.toList ∧
        e.line = before.toList.count '\n' + 1 ∧ s.runScript before = (t, none) := by
  refine ⟨fun first rest whole => ⟨?_, ?_⟩, ?_⟩
  · intro t u result good onward
    rw [runScript_append_of_whole whole, good]
    simp only [onward]
  · intro t e failed
    rw [runScript_append_of_whole whole, failed]
  · exact fun script t e reachable => reachable.exists_of_runScript_error

def sampleEdited : Sheet := ((ofSize 2 2).runScript "A1 5\n# five\n").1

/-- The third line of the second part fails, which is the fifth in all. -/
theorem runScript_append_sample : ∃ t e,
    sampleEdited.runScript ":insert-row 1\r\n\nB1 =A1+\nB1 7" = (t, some e) ∧ e.line = 3 ∧
    (ofSize 2 2).runScript ("A1 5\n# five\n" ++ ":insert-row 1\r\n\nB1 =A1+\nB1 7") =
      (t, some (e.later 2)) ∧
    ∃ before behind, "A1 5\n# five\n" ++ ":insert-row 1\r\n\nB1 =A1+\nB1 7" = before ++ behind ∧
      before.toList.count '\n' = 4 ∧ (ofSize 2 2).runScript before = (t, none) := by
  have reachable : (ofSize 2 2).Reachable := .ofSize (by decide)
  have whole : Text.IsWhole "A1 5\n# five\n".toList := .inr ⟨"A1 5\n# five".toList, by decide +kernel⟩
  have returns : (ofSize 2 2).ScriptReturns
      ("A1 5\n# five\n" ++ ":insert-row 1\r\n\nB1 =A1+\nB1 7") := by decide +kernel
  have good : (ofSize 2 2).runScript "A1 5\n# five\n" = (sampleEdited, none) :=
    Prod.ext rfl (by decide +kernel)
  have bad : sampleEdited.runScript ":insert-row 1\r\n\nB1 =A1+\nB1 7" =
      ((sampleEdited.runScript ":insert-row 1\r\n\nB1 =A1+\nB1 7").1,
        some ⟨3, .rejected (.parse (.unexpectedEnd 3))⟩) := Prod.ext rfl (by decide +kernel)
  obtain ⟨appended, stopped⟩ := runScript_append (ofSize 2 2)
  have all := (appended _ _ whole).1 _ _ _ good bad
  obtain ⟨before, behind, text, -, place, same⟩ := stopped _ _ _ reachable returns all
  refine ⟨_, _, bad, rfl, all, before, behind, text, ?_, same⟩
  exact (Nat.succ.inj place).symm

end Sheet
end Spreadsheet
