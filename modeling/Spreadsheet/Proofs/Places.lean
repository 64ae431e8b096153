import Mathlib
import Spreadsheet.Formula.Cursor

/-! Cursors by their positions in a text. Where two texts begin alike, so do the runs of characters
that end before the texts part. -/
namespace Spreadsheet.Cursor
open Text

variable {P : Char → Bool} {s t : List Char} {p p' q : Nat}

/-- The cursor at a position of a text. -/
def place (s : List Char) (p : Nat) : Cursor := ⟨s.drop p, p⟩

/-- The longest run of characters of a class from a position on. -/
def run (P : Char → Bool) (s : List Char) (p : Nat) : List Char := (s.drop p).takeWhile P

/-- The first position from `p` on that holds no blank. -/
def skip (s : List Char) (p : Nat) : Nat := p + (run isBlank s p).length

@[simp] theorem position_place (s : List Char) (p : Nat) : (place s p).position = p := rfl

theorem head?_place (s : List Char) (p : Nat) : (place s p).rest.head? = s[p]? := List.head?_drop

theorem advance_place (s : List Char) (p : Nat) : (place s p).advance = place s (p + 1) := by
  simp only [advance, place, List.tail_drop]

theorem dropWhile_drop (P : Char → Bool) (s : List Char) (p : Nat) :
    (s.drop p).dropWhile P = s.drop (p + (run P s p).length) := by
  rw [← List.drop_drop]
  conv => rhs; rw [← List.takeWhile_append_dropWhile (p := P) (l := s.drop p)]
  exact List.drop_left.symm

theorem span_place (P : Char → Bool) (s : List Char) (p : Nat) :
    (place s p).span P = (run P s p, place s (p + (run P s p).length)) := by
  simp only [span, place, dropWhile_drop]
  rfl

theorem skipBlanks_place (s : List Char) (p : Nat) :
    (place s p).skipBlanks = place s (skip s p) := by
  rw [skipBlanks, span_place]
  rfl

theorem eat?_place (token : Char) (s : List Char) (p : Nat) : (place s p).eat? token =
    if s[skip s p]? = some token then some (place s (skip s p + 1)) else none := by
  simp only [eat?, skipBlanks_place, head?_place, advance_place]

theorem rest_of_none (ends : s[p]? = none) : (place s p).rest = [] := by
  rwa [← head?_place, List.head?_eq_none_iff] at ends

theorem rest_of_some {c : Char} (here : s[p]? = some c) :
    (place s p).rest = c :: s.drop (p + 1) := by
  rw [← head?_place] at here
  rw [← List.cons_head?_tail here, place, List.tail_drop]

theorem unexpected_of_none (ends : s[p]? = none) : (place s p).unexpected = .unexpectedEnd p := by
  unfold unexpected
  rw [rest_of_none ends]
  rfl

theorem unexpected_of_some {found : Char} (here : s[p]? = some found) :
    (place s p).unexpected = .unexpectedCharacter p found := by
  unfold unexpected
  rw [rest_of_some here]
  rfl

/-! Runs. -/

theorem run_length_le (within : p ≤ s.length) : p + (run P s p).length ≤ s.length := by
  have short := (List.takeWhile_sublist P (l := s.drop p)).length_le
  rw [List.length_drop] at short
  unfold run
  omega

theorem le_skip (s : List Char) (p : Nat) : p ≤ skip s p := Nat.le_add_right _ _

theorem skip_le_length (within : p ≤ s.length) : skip s p ≤ s.length := run_length_le within

theorem lt_length {c : Char} (here : s[p]? = some c) : p < s.length :=
  (List.getElem?_eq_some_iff.mp here).1

theorem skip_eq_self (visible : ∀ c, s[p]? = some c → isBlank c = false) : skip s p = p := by
  unfold skip run
  rw [← List.head?_drop] at visible
  cases rest : s.drop p with
  | nil => rfl
  | cons c behind =>
    rw [rest] at visible
    rw [List.takeWhile_cons_of_neg (by simp [visible c rfl])]
    rfl

theorem skip_succ {c : Char} (here : s[p]? = some c) (blank : isBlank c) :
    skip s (p + 1) = skip s p := by
  unfold skip run
  rw [← List.head?_drop] at here
  rw [← List.cons_head?_tail here, List.tail_drop, List.takeWhile_cons_of_pos blank,
    List.length_cons]
  omega

theorem visible_skip {c : Char} (here : s[skip s p]? = some c) : isBlank c = false := by
  have rest : (s.drop p).dropWhile isBlank = s.drop (skip s p) := dropWhile_drop ..
  rw [← List.head?_drop, ← rest] at here
  have stop := List.head?_dropWhile_not isBlank (s.drop p)
  rw [here] at stop
  exact stop

theorem skip_skip (s : List Char) (p : Nat) : skip s (skip s p) = skip s p :=
  skip_eq_self fun _ here => visible_skip here

theorem skip_mono (s : List Char) : Monotone (skip s) := by
  refine monotone_nat_of_le_succ fun p => ?_
  by_cases blank : ∃ c, s[p]? = some c ∧ isBlank c
  · obtain ⟨c, here, blank⟩ := blank
    exact (skip_succ here blank).ge
  · have here : skip s p = p := by
      refine skip_eq_self fun c here => ?_
      simpa using fun member => blank ⟨c, here, member⟩
    rw [here]
    exact (Nat.le_succ p).trans (le_skip s (p + 1))

/-! Two texts that are alike up to `q`. -/

section alike
variable (alike : ∀ i < q, s[i]? = t[i]?)
include alike

theorem run_congr (ends : p + (run P s p).length < q) : run P t p = run P s p := by
  have front : (s.drop p).take (q - p) = (t.drop p).take (q - p) := by
    refine List.ext_getElem? fun i => ?_
    simp only [List.getElem?_take, List.getElem?_drop]
    split
    · exact alike _ (by omega)
    · rfl
  have cut : (run P t p).take (q - p) = run P s p := by
    unfold run at ends ⊢
    rw [List.take_takeWhile, ← front, ← List.take_takeWhile]
    exact List.take_of_length_le (by omega)
  have short : (run P t p).length ≤ q - p := by
    have length := congrArg List.length cut
    rw [List.length_take] at length
    omega
  rwa [List.take_of_length_le short] at cut

theorem skip_congr (ends : skip s p < q) : skip t p = skip s p := by
  unfold skip
  rw [run_congr alike ends]

theorem eat?_congr (token : Char) (before : skip s p < q) : (place t p).eat? token =
    if s[skip s p]? = some token then some (place t (skip s p + 1)) else none := by
  rw [eat?_place, skip_congr alike before, alike _ before]

end alike

end Spreadsheet.Cursor
