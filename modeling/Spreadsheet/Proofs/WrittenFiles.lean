import Spreadsheet.Disk.FileTree
import Spreadsheet.Proofs.Except

/-! What was written at a path is read there, and all other files are as they were. -/
namespace Spreadsheet.FileTree

variable {t u : FileTree} {p q : Place} {path other text old : String} {names : List String}

/-! A file that is put somewhere takes nothing away from the directories. -/

theorem textAt?_put (t : FileTree) (place p : Place) (text : String) :
    (t.put place text).textAt? p = if place = p then some text else t.textAt? p := by
  simp only [textAt?, put, List.find?_cons, List.find?_filter]
  grind

theorem isDirectory_put (directory : t.isDirectory p) (place : Place) (text : String) :
    (t.put place text).isDirectory p := by
  simp only [isDirectory, put, Bool.or_eq_true, List.any_eq_true, List.any_cons] at directory ⊢
  rcases directory with above | ⟨file, there, below⟩
  · exact .inl above
  · by_cases replaced : file.1 = place
    · exact .inr (.inl (replaced ▸ below))
    · exact .inr (.inr ⟨file, by simp [there, replaced], below⟩)

theorem enter_put {name : String} (entered : t.enter p name = .ok q) (place : Place)
    (text : String) : (t.put place text).enter p name = .ok q := by
  by_cases directory : t.isDirectory p
  · simpa [enter, directory, isDirectory_put directory place text] using entered
  · simp [enter, directory] at entered

theorem foldlM_enter_put (walked : names.foldlM t.enter p = .ok q) (place : Place) (text : String) :
    names.foldlM (t.put place text).enter p = .ok q := by
  induction names generalizing p with
  | nil => exact walked
  | cons name rest ih =>
    rw [List.foldlM_cons] at walked ⊢
    obtain ⟨next, entered, walked⟩ := bind_eq_ok.mp walked
    rw [enter_put entered, ok_bind]
    exact ih walked

/-- A path can be followed if it is neither empty nor too long, and each name can be entered. -/
theorem follow_eq_ok : t.follow path names = .ok q ↔ path ≠ "" ∧ path.utf8ByteSize ≤ pathLimit ∧
    names.foldlM t.enter (if isAbsolute path then [] else t.home) = .ok q := by
  unfold follow
  by_cases empty : path = ""
  · simp [empty]
  · by_cases long : pathLimit < path.utf8ByteSize
    · simp [empty, long]
    · simp [empty, long, Nat.le_of_not_lt long]

theorem follow_put (followed : t.follow path names = .ok q) (place : Place) (text : String) :
    (t.put place text).follow path names = .ok q := by
  obtain ⟨some, short, walked⟩ := follow_eq_ok.mp followed
  exact follow_eq_ok.mpr ⟨some, short, foldlM_enter_put walked place text⟩

/-- Names that end in a single point lead to a directory. -/
theorem isDirectory_of_follow (followed : t.follow path (names ++ ["."]) = .ok q) :
    t.isDirectory q := by
  obtain ⟨-, -, walked⟩ := follow_eq_ok.mp followed
  rw [List.foldlM_append] at walked
  obtain ⟨place, -, entered⟩ := bind_eq_ok.mp walked
  rw [List.foldlM_cons] at entered
  obtain ⟨next, entered, last⟩ := bind_eq_ok.mp entered
  cases last
  by_cases directory : t.isDirectory place
  · simp only [enter, directory, if_true] at entered
    cases entered
    exact directory
  · simp [enter, directory] at entered

/-! Reading and writing. -/

theorem read_eq_ok : t.read path = .ok text ↔ ∃ place,
    t.follow path (if wantsDirectory path then FileTree.names path ++ ["."]
      else FileTree.names path) = .ok place ∧ t.textAt? place = some text := by
  unfold read
  rw [bind_eq_ok]
  refine exists_congr fun place => and_congr_right fun _ => ?_
  cases t.textAt? place with
  | none => simp [throw_ne_ok]
  | some found => simp [pure_eq_ok]

/-- A file can be written where its directory is there, and no directory has its name. -/
theorem write_eq_ok : t.write path text = .ok u ↔ wantsDirectory path = false ∧ ∃ place,
    t.follow path (FileTree.names path) = .ok place ∧ t.isDirectory place = false ∧
      t.put place text = u := by
  unfold write
  rw [bind_eq_ok]
  constructor
  · rintro ⟨place, followed, written⟩
    split at written
    · exact absurd written throw_ne_ok
    · rename_i free
      cases slash : wantsDirectory path with
      | true =>
        rw [slash] at followed
        exact absurd (isDirectory_of_follow followed) free
      | false =>
        rw [slash] at followed
        exact ⟨rfl, place, followed, eq_false_of_ne_true free, pure_eq_ok.mp written⟩
  · rintro ⟨slash, place, followed, free, rfl⟩
    refine ⟨place, by simpa [slash] using followed, ?_⟩
    simp [free, pure_eq_ok]

/-- Whether a file can be written does not depend on its text. -/
theorem exists_write (written : t.write path text = .ok u) (other : String) :
    ∃ v, t.write path other = .ok v := by
  obtain ⟨slash, place, followed, free, -⟩ := write_eq_ok.mp written
  exact ⟨t.put place other, write_eq_ok.mpr ⟨slash, place, followed, free, rfl⟩⟩

theorem read_write (written : t.write path text = .ok u) : u.read path = .ok text := by
  obtain ⟨slash, place, followed, -, rfl⟩ := write_eq_ok.mp written
  refine read_eq_ok.mpr ⟨place, ?_, by rw [textAt?_put, if_pos rfl]⟩
  simpa [slash] using follow_put followed place text

/-- Another path reads what it read before, unless it leads to the same file. -/
theorem read_of_write (written : t.write path text = .ok u) (before : t.read other = .ok old) :
    u.read other = .ok old ∨ u.read other = .ok text ∧ t.read path = .ok old := by
  obtain ⟨slash, place, followed, -, rfl⟩ := write_eq_ok.mp written
  obtain ⟨reached, led, found⟩ := read_eq_ok.mp before
  have leads := follow_put led place text
  by_cases same : place = reached
  · subst same
    refine .inr ⟨read_eq_ok.mpr ⟨place, leads, by rw [textAt?_put, if_pos rfl]⟩,
      read_eq_ok.mpr ⟨place, ?_, found⟩⟩
    simpa [slash] using followed
  · exact .inl (read_eq_ok.mpr ⟨reached, leads, by rwa [textAt?_put, if_neg same]⟩)

end Spreadsheet.FileTree
