import Mathlib
import Spreadsheet.Text.Blank

/-! Classes of characters by their numbers, and runs of characters of a class: a run ends where
the text does not go on with the class. -/
namespace Spreadsheet.Text

theorem isUpper_iff {c : Char} : c.isUpper ↔ 65 ≤ c.toNat ∧ c.toNat ≤ 90 := by
  simp only [Char.isUpper, decide_eq_true_eq, UInt32.le_iff_toNat_le, ge_iff_le]
  rfl

theorem isDigit_iff {c : Char} : c.isDigit ↔ 48 ≤ c.toNat ∧ c.toNat ≤ 57 := by
  simp only [Char.isDigit, Bool.and_eq_true, decide_eq_true_eq, UInt32.le_iff_toNat_le, ge_iff_le]
  rfl

theorem not_isBlank {c : Char} (low : 33 ≤ c.toNat) (high : c.toNat ≤ 126) :
    isBlank c = false := by
  unfold isBlank
  simp only [Bool.or_eq_false_iff, Bool.and_eq_false_iff, decide_eq_false_iff_not, beq_eq_false_iff_ne]
  omega

/-- No character of the class stands in front. -/
def Stops (p : Char → Bool) (s : List Char) : Prop := ∀ c ∈ s.head?, p c = false

theorem stops_nil (p : Char → Bool) : Stops p [] := by
  simp [Stops]

theorem stops_cons {p : Char → Bool} {c : Char} {s : List Char} (h : p c = false) :
    Stops p (c :: s) := by
  simpa [Stops] using h

theorem takeWhile_run {p : Char → Bool} {run rest : List Char} (all : ∀ c ∈ run, p c)
    (stop : Stops p rest) : (run ++ rest).takeWhile p = run := by
  rw [List.takeWhile_append_of_pos all]
  cases rest with
  | nil => simp
  | cons c rest => simp [stop c rfl]

theorem dropWhile_run {p : Char → Bool} {run rest : List Char} (all : ∀ c ∈ run, p c)
    (stop : Stops p rest) : (run ++ rest).dropWhile p = rest := by
  rw [List.dropWhile_append_of_pos all]
  cases rest with
  | nil => rfl
  | cons c rest => simp [stop c rfl]

theorem takeWhile_all {p : Char → Bool} {run : List Char} (all : ∀ c ∈ run, p c) :
    run.takeWhile p = run := by
  simpa using takeWhile_run all (stops_nil p)

theorem dropWhile_all {p : Char → Bool} {run : List Char} (all : ∀ c ∈ run, p c) :
    run.dropWhile p = [] := by
  simpa using dropWhile_run all (stops_nil p)

theorem dropBlanks_of_visible {s : List Char} (visible : ∀ c ∈ s, isBlank c = false) :
    dropBlanks s = s := by
  have stop : Stops isBlank s := fun c h => visible c (List.mem_of_mem_head? h)
  exact dropWhile_run (List.forall_mem_nil _) stop

theorem trim_of_visible {s : List Char} (visible : ∀ c ∈ s, isBlank c = false) : trim s = s := by
  unfold trim
  rw [dropBlanks_of_visible visible, dropBlanks_of_visible fun c h => visible c (List.mem_reverse.mp h),
    List.reverse_reverse]

/-- The decimal digits of a number are digits. -/
theorem isDigit_of_mem_toDigits {n : Nat} : ∀ c ∈ Nat.toDigits 10 n, c.isDigit :=
  fun _ h => Nat.isDigit_of_mem_toDigits (by decide) (by decide) h

end Spreadsheet.Text
