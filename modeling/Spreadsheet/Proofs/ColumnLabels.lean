import Mathlib.Data.List.Shortlex
import Spreadsheet.Address.Column
import Spreadsheet.Proofs.TextRuns

/-! Every column has exactly one label, labels stand in the order of their columns, and those
below the last index are read back. -/
namespace Spreadsheet.Column

/-! Numerals grow at their end. -/

private theorem letter_facts : ∀ digit < 26,
    (letter digit).toNat - 'A'.toNat = digit ∧ (letter digit).isUpper := by
  decide

private theorem toNat_A : 'A'.toNat = 65 := rfl

theorem lt_extend (v : Nat) (c : Char) : v < extend v c := by
  unfold extend
  omega

theorem extend_lt_extend {v w : Nat} {c d : Char} (hc : c.isUpper) (hd : d.isUpper) :
    extend v c < extend w d ↔ v < w ∨ v = w ∧ c < d := by
  obtain ⟨lowC, highC⟩ := Text.isUpper_iff.mp hc
  obtain ⟨lowD, highD⟩ := Text.isUpper_iff.mp hd
  have order : c < d ↔ c.toNat < d.toNat := UInt32.lt_iff_toNat_lt
  unfold extend
  rw [order, toNat_A]
  omega

/-- Every number but zero extends a smaller one by a capital letter. -/
@[elab_as_elim]
theorem extend_induction {P : Nat → Prop} (zero : P 0)
    (extend : ∀ v c, c.isUpper → P v → P (extend v c)) (n : Nat) : P n := by
  induction n using Nat.strongRecOn with
  | ind n ih =>
    rcases n.eq_zero_or_pos with rfl | positive
    · exact zero
    · obtain ⟨digit, upper⟩ := letter_facts ((n - 1) % 26) (Nat.mod_lt _ (by decide))
      have whole : Column.extend ((n - 1) / 26) (letter ((n - 1) % 26)) = n := by
        rw [Column.extend, digit]
        omega
      rw [← whole]
      exact extend _ _ upper (ih _ (by omega))

@[simp] theorem numeral_zero : numeral 0 = [] := by
  rw [numeral, if_pos rfl]

theorem numeral_extend {v : Nat} {c : Char} (upper : c.isUpper) :
    numeral (extend v c) = numeral v ++ [c] := by
  obtain ⟨low, high⟩ := Text.isUpper_iff.mp upper
  have front : (extend v c - 1) / 26 = v := by
    rw [extend, toNat_A]
    omega
  have last : (extend v c - 1) % 26 = c.toNat - 'A'.toNat := by
    rw [extend, toNat_A]
    omega
  rw [numeral, if_neg (Nat.ne_zero_of_lt (lt_extend v c)), front, last, letter, toNat_A,
    Nat.add_sub_cancel' low, Char.ofNat_toNat]

theorem value_append (letters : List Char) (c : Char) :
    value (letters ++ [c]) = extend (value letters) c :=
  List.foldl_concat ..

theorem value_numeral (n : Nat) : value (numeral n) = n := by
  induction n using extend_induction with
  | zero => rw [numeral_zero]; rfl
  | extend v c upper ih => rw [numeral_extend upper, value_append, ih]

theorem numeral_value {letters : List Char} (capitals : ∀ c ∈ letters, c.isUpper) :
    numeral (value letters) = letters := by
  induction letters using List.reverseRecOn with
  | nil => exact numeral_zero
  | append_singleton letters c ih =>
    obtain ⟨front, last⟩ := List.forall_mem_append.mp capitals
    rw [value_append, numeral_extend (last c List.mem_cons_self), ih front]

theorem isUpper_of_mem_numeral (n : Nat) : ∀ c ∈ numeral n, c.isUpper := by
  induction n using extend_induction with
  | zero => simp
  | extend v c upper ih =>
    rw [numeral_extend upper]
    exact List.forall_mem_append.mpr ⟨ih, List.forall_mem_singleton.mpr upper⟩

theorem numeral_ne_nil {n : Nat} (positive : 0 < n) : numeral n ≠ [] := by
  rw [numeral, if_neg (Nat.ne_of_gt positive)]
  simp

/-! Labels. -/

variable {letters : List Char} {n : Nat}

theorem isUpper_of_mem_label (column : Nat) : ∀ c ∈ label column, c.isUpper :=
  isUpper_of_mem_numeral _

theorem label_ne_nil (column : Nat) : label column ≠ [] :=
  numeral_ne_nil (Nat.succ_pos column)

theorem value_label (column : Nat) : value (label column) = column + 1 :=
  value_numeral _

theorem map_toUpper_label (column : Nat) : (label column).map Char.toUpper = label column := by
  have same : ∀ c ∈ label column, c.toUpper = c := fun c member =>
    Char.toUpper_eq_of_not_isLower
      (Char.not_isLower_of_isUpper (isUpper_of_mem_label column c member))
  exact (List.map_congr_left same).trans (List.map_id' _)

theorem label_eq_iff : label n = letters ↔ (∀ c ∈ letters, c.isUpper) ∧ value letters = n + 1 := by
  constructor
  · rintro rfl
    exact ⟨isUpper_of_mem_label n, value_label n⟩
  · rintro ⟨capitals, number⟩
    rw [label, ← number, numeral_value capitals]

/-! Reading. -/

/-- Numbers only grow, so the bound holds on the way if it holds at the end. -/
theorem foldlM_extend? : letters.foldlM extend? 0 = some n ↔
    (∀ c ∈ letters, c.isUpper) ∧ value letters = n ∧ n < indexLimit := by
  induction letters using List.reverseRecOn generalizing n with
  | nil =>
    simp only [List.foldlM_nil, Option.pure_def, Option.some.injEq, value, List.foldl_nil]
    have : 0 < indexLimit := by decide
    grind
  | append_singleton letters c ih =>
    rw [List.foldlM_append, Option.bind_eq_bind, Option.bind_eq_some_iff]
    simp only [ih, value_append, List.foldlM_cons]
    grind [extend?, lt_extend]

theorem value_pos (nonempty : letters ≠ []) : 0 < value letters := by
  rw [← List.dropLast_append_getLast nonempty, value_append]
  exact Nat.zero_lt_of_lt (lt_extend _ _)

theorem ofLabel?_eq_some : ofLabel? letters = some n ↔ n + 1 < indexLimit ∧ label n = letters := by
  unfold ofLabel?
  split
  · rename_i empty
    simp [empty, label_ne_nil]
  · rename_i nonempty
    have positive := value_pos nonempty
    rw [Option.map_eq_some_iff, label_eq_iff]
    constructor
    · rintro ⟨v, read, rfl⟩
      obtain ⟨capitals, rfl, bound⟩ := foldlM_extend?.mp read
      rw [Nat.sub_add_cancel positive]
      exact ⟨bound, capitals, rfl⟩
    · rintro ⟨bound, capitals, number⟩
      exact ⟨n + 1, foldlM_extend?.mpr ⟨capitals, number, bound⟩, rfl⟩

theorem ofLabel?_label {column : Nat} (bound : column + 1 < indexLimit) :
    ofLabel? (label column) = some column :=
  ofLabel?_eq_some.mpr ⟨bound, rfl⟩

theorem isSome_ofLabel? : (ofLabel? letters).isSome ↔
    letters ≠ [] ∧ (∀ c ∈ letters, c.isUpper) ∧ value letters < indexLimit := by
  simp only [Option.isSome_iff_exists, ofLabel?_eq_some, label_eq_iff]
  constructor
  · rintro ⟨n, bound, capitals, number⟩
    refine ⟨?_, capitals, number ▸ bound⟩
    rintro rfl
    cases number
  · rintro ⟨nonempty, capitals, bound⟩
    have whole := Nat.sub_add_cancel (value_pos nonempty)
    exact ⟨value letters - 1, whole.symm ▸ bound, capitals, whole.symm⟩

/-- The label of a column is read back, unless the column is the last that an index can name; what
can be read is the labels with a number below `indexLimit`. -/
theorem ofLabel?_label_eq (n : Nat) (letters : List Char) :
    ofLabel? (label n) = (if n + 1 < indexLimit then some n else none) ∧
      ((ofLabel? letters).isSome ↔
        letters ≠ [] ∧ (∀ c ∈ letters, c.isUpper) ∧ value letters < indexLimit) := by
  refine ⟨?_, isSome_ofLabel?⟩
  split
  · exact ofLabel?_label ‹_›
  · rename_i last
    rw [← Option.not_isSome_iff_eq_none, isSome_ofLabel?, value_label]
    exact fun read => last read.2.2

/-- The last index has a label, and that is not read back. -/
theorem ofLabel?_last : label 18446744073709551615 = "GKGWBYLWRXTLPP".toList ∧
    ¬ ∀ n < indexLimit, ofLabel? (label n) = some n := by
  constructor
  · exact label_eq_iff.mpr ⟨by simp, by decide +kernel⟩
  · intro all
    have read := all 18446744073709551615 (by decide)
    exact absurd (ofLabel?_eq_some.mp read).1 (by decide)

/-! Order. -/

theorem lex_append {r : Char → Char → Prop} {s t : List Char} (before : List.Lex r s t)
    (length : s.length = t.length) (u v : List Char) : List.Lex r (s ++ u) (t ++ v) := by
  induction before with
  | nil => cases length
  | rel first => exact .rel first
  | cons _ ih => exact .cons (ih (Nat.succ.inj length))

/-- A letter more at the end of both does not change which of two texts comes first. -/
theorem shortlex_append {s t : List Char} (before : List.Shortlex (· < ·) s t) (c d : Char) :
    List.Shortlex (· < ·) (s ++ [c]) (t ++ [d]) := by
  rcases List.shortlex_def.mp before with shorter | ⟨length, alphabetical⟩
  · exact .of_length_lt (by simpa using shorter)
  · exact .of_lex (by simpa using length) (lex_append alphabetical length _ _)

theorem shortlex_numeral {m n : Nat} (less : m < n) :
    List.Shortlex (· < ·) (numeral m) (numeral n) := by
  induction n using extend_induction generalizing m with
  | zero => cases less
  | extend w d upperD ih =>
    cases m using extend_induction with
    | zero =>
      rw [numeral_zero]
      exact (List.shortlex_nil_or_eq_nil _).resolve_right (numeral_ne_nil less)
    | extend v c upperC =>
      rw [numeral_extend upperC, numeral_extend upperD]
      rcases (extend_lt_extend upperC upperD).mp less with smaller | ⟨rfl, earlier⟩
      · exact shortlex_append (ih smaller) c d
      · exact List.Shortlex.append_left ((List.shortlex_singleton_iff c d).mpr earlier) _

theorem shortlex_label_iff {m n : Nat} :
    List.Shortlex (· < ·) (label m) (label n) ↔ m < n := by
  constructor
  · intro before
    by_contra notLess
    rcases Nat.lt_or_eq_of_le (Nat.le_of_not_lt notLess) with greater | rfl
    · exact Std.Asymm.asymm _ _ before (shortlex_numeral (Nat.succ_lt_succ greater))
    · exact Std.Asymm.asymm _ _ before before
  · exact fun less => shortlex_numeral (Nat.succ_lt_succ less)

/-- A column is read from no label but its own, and labels stand in the order of their columns:
shorter ones first, those of one length by the alphabet. -/
theorem label_unique_ordered :
    (∀ letters n, ofLabel? letters = some n ↔ n + 1 < indexLimit ∧ label n = letters) ∧
      ∀ m n, m < n ↔ List.Shortlex (· < ·) (label m) (label n) :=
  ⟨fun _ _ => ofLabel?_eq_some, fun _ _ => shortlex_label_iff.symm⟩

end Spreadsheet.Column
