import Spreadsheet.Csv
import Spreadsheet.Proofs.Reachable

/-! A reader of comma-separated values, and what it reads in an export: the sheet as it is shown,
without a field that a spreadsheet program would take for a formula. -/
namespace Spreadsheet
namespace Csv

/-! The reader goes from character to character. -/

/-- Where in a field it is: before the first character, in a field without quotes, inside quotes,
or behind a quote that may have closed them. -/
inductive Place where
  | start | plain | quoted | closed
deriving DecidableEq

/-- The field it is in as far as it has come, then the complete fields of the record and the
complete records. -/
structure Reader where
  place : Place
  field : List Char
  fields : List (List Char)
  records : List (List (List Char))

namespace Reader

def take (r : Reader) (place : Place) (c : Char) : Reader :=
  { r with place, field := r.field ++ [c] }

/-- A character outside of quotes: commas end fields, and line feeds records. -/
def outside (r : Reader) (c : Char) : Reader :=
  if c = ',' then ⟨.start, [], r.fields ++ [r.field], r.records⟩
  else if c = '\n' then ⟨.start, [], [], r.records ++ [r.fields ++ [r.field]]⟩
  else r.take .plain c

/-- Quotes mean something only at the start of a field and after that inside. A second quote behind
the first is one of the field; anything else ends it there. -/
def step (r : Reader) (c : Char) : Option Reader :=
  match r.place with
  | .start => some (if c = '"' then { r with place := .quoted } else r.outside c)
  | .plain => some (r.outside c)
  | .quoted => some (if c = '"' then { r with place := .closed } else r.take .quoted c)
  | .closed =>
    if c = '"' then some (r.take .quoted c)
    else if c = ',' ∨ c = '\n' then some (r.outside c)
    else none

end Reader

/-- The records of a text, each of which ends in a line feed. -/
def read (text : List Char) : Option (List (List (List Char))) := do
  let r ← text.foldlM Reader.step ⟨.start, [], [], []⟩
  if r.place = .start ∧ r.fields = [] then some r.records else none

/-- The first character behind leading spaces and tabs is one that formulas start with. -/
def StartsFormula (text : List Char) : Prop :=
  ∃ blanks c rest, text = blanks ++ c :: rest ∧ (∀ b ∈ blanks, b = ' ' ∨ b = '\t') ∧
    (c = '=' ∨ c = '+' ∨ c = '-' ∨ c = '@')

theorem looksLikeFormula_iff {text : List Char} : looksLikeFormula text ↔ StartsFormula text := by
  unfold looksLikeFormula
  constructor
  · intro looks
    cases behind : text.dropWhile fun c => c == ' ' || c == '\t' with
    | nil => simp [behind] at looks
    | cons c rest =>
      have starts : c = '=' ∨ c = '+' ∨ c = '-' ∨ c = '@' := by simpa [behind] using looks
      refine ⟨text.takeWhile fun c => c == ' ' || c == '\t', c, rest, ?_, fun b blank => ?_, starts⟩
      · rw [← behind, List.takeWhile_append_dropWhile]
      · simpa using List.mem_takeWhile_imp blank
  · rintro ⟨blanks, c, rest, rfl, blank, starts⟩
    have stop : (c == ' ' || c == '\t') = false := by
      rcases starts with rfl | rfl | rfl | rfl <;> decide
    have behind : (blanks ++ c :: rest).dropWhile (fun c => c == ' ' || c == '\t') = c :: rest := by
      rw [List.dropWhile_append_of_pos fun b member => by simpa using blank b member]
      rw [List.dropWhile_cons_of_neg (by simp [stop])]
    simpa [behind] using starts

theorem guarded_of_startsFormula {text : List Char} (h : StartsFormula text) :
    guarded text = '\'' :: text := if_pos (looksLikeFormula_iff.mpr h)

theorem guarded_of_not_startsFormula {text : List Char} (h : ¬ StartsFormula text) :
    guarded text = text := if_neg fun looks => h (looksLikeFormula_iff.mp looks)

theorem not_startsFormula_guarded (text : List Char) : ¬ StartsFormula (guarded text) := by
  by_cases starts : StartsFormula text
  · rw [guarded_of_startsFormula starts, ← looksLikeFormula_iff]
    exact Bool.false_ne_true
  · rwa [guarded_of_not_startsFormula starts]

/-! Fields, one after the other. -/

section fields
variable {place : Place} {done text : List Char} {fields texts : List (List Char)}
  {records : List (List (List Char))} {rows : List (List (List Char))}

namespace Reader

theorem step_comma (out : place ≠ .quoted) : step ⟨place, done, fields, records⟩ ',' =
    some ⟨.start, [], fields ++ [done], records⟩ := by
  cases place with
  | quoted => contradiction
  | start | plain | closed => rfl

theorem step_lineFeed (out : place ≠ .quoted) : step ⟨place, done, fields, records⟩ '\n' =
    some ⟨.start, [], [], records ++ [fields ++ [done]]⟩ := by
  cases place with
  | quoted => contradiction
  | start | plain | closed => rfl

theorem step_bare (outside : place = .start ∨ place = .plain) {c : Char}
    (bare : c ∉ [',', '"', '\n', '\r']) : step ⟨place, done, fields, records⟩ c =
      some ⟨.plain, done ++ [c], fields, records⟩ := by
  simp only [List.mem_cons, List.not_mem_nil, or_false, not_or] at bare
  obtain ⟨comma, quote, lineFeed, -⟩ := bare
  rcases outside with rfl | rfl <;> simp [step, outside, take, comma, quote, lineFeed]

end Reader

theorem foldlM_bare (outside : place = .start ∨ place = .plain)
    (bare : ∀ c ∈ text, c ∉ [',', '"', '\n', '\r']) : ∃ place', place' ≠ .quoted ∧
      text.foldlM Reader.step ⟨place, done, fields, records⟩ =
        some ⟨place', done ++ text, fields, records⟩ := by
  induction text generalizing place done with
  | nil =>
    refine ⟨place, ?_, by simp⟩
    rcases outside with rfl | rfl <;> decide
  | cons c text ih =>
    obtain ⟨first, later⟩ := List.forall_mem_cons.mp bare
    obtain ⟨place', out, rest⟩ := @ih .plain (done ++ [c]) (.inr rfl) later
    rw [List.append_assoc] at rest
    rw [List.foldlM_cons, Reader.step_bare outside first]
    exact ⟨place', out, rest⟩

/-- Inside quotes a doubled quote is read as one. -/
theorem foldlM_quoted : (text.flatMap fun c => if c = '"' then ['"', '"'] else [c]).foldlM
    Reader.step ⟨.quoted, done, fields, records⟩ =
      some ⟨.quoted, done ++ text, fields, records⟩ := by
  induction text generalizing done with
  | nil => simp
  | cons c text ih =>
    have once : (if c = '"' then ['"', '"'] else [c]).foldlM Reader.step
        ⟨.quoted, done, fields, records⟩ = some ⟨.quoted, done ++ [c], fields, records⟩ := by
      split
      · rename_i quote
        rw [quote]
        rfl
      · rename_i other
        simp [Reader.step, Reader.take, other]
    have rest := @ih (done ++ [c])
    rw [List.append_assoc] at rest
    rw [List.flatMap_cons, List.foldlM_append, once]
    exact rest

/-- A field is read up to where it may end. -/
theorem foldlM_field (text : List Char) : ∃ place, place ≠ .quoted ∧
    (field text).foldlM Reader.step ⟨.start, [], fields, records⟩ =
      some ⟨place, guarded text, fields, records⟩ := by
  unfold field
  simp only
  split
  · refine ⟨.closed, by decide, ?_⟩
    have opened : Reader.step ⟨.start, [], fields, records⟩ '"' =
        some ⟨.quoted, [], fields, records⟩ := rfl
    rw [quoted, List.cons_append, List.foldlM_cons, opened, Option.bind_eq_bind, Option.bind_some,
      List.foldlM_append, foldlM_quoted]
    rfl
  · rename_i unquoted
    refine foldlM_bare (.inl rfl) fun c member special => unquoted ?_
    exact List.any_eq_true.mpr ⟨c, member, decide_eq_true special⟩

theorem foldlM_record (nonempty : texts ≠ []) :
    (record texts).foldlM Reader.step ⟨.start, [], fields, records⟩ =
      some ⟨.start, [], [], records ++ [fields ++ texts.map guarded]⟩ := by
  unfold record
  induction texts generalizing fields with
  | nil => contradiction
  | cons text texts ih =>
    obtain ⟨place, out, first⟩ := @foldlM_field fields records text
    cases texts with
    | nil =>
      have last : [','].intercalate ([text].map field) = field text := by simp [List.intercalate]
      rw [last, List.foldlM_append, first, Option.bind_eq_bind, Option.bind_some, List.foldlM_cons,
        Reader.step_lineFeed out]
      rfl
    | cons next texts =>
      have further : [','].intercalate ((text :: next :: texts).map field) =
          field text ++ ',' :: [','].intercalate ((next :: texts).map field) := by
        simp [List.intercalate]
      have rest := @ih (fields ++ [guarded text]) (List.cons_ne_nil next texts)
      rw [List.append_assoc] at rest
      rw [further, List.append_assoc, List.foldlM_append, first, Option.bind_eq_bind,
        Option.bind_some, List.cons_append, List.foldlM_cons, Reader.step_comma out]
      exact rest

/-- Every row is a record. -/
theorem read_flatMap_record (wide : ∀ texts ∈ rows, texts ≠ []) :
    read (rows.flatMap record) = some (rows.map (·.map guarded)) := by
  have all : ∀ records, (rows.flatMap record).foldlM Reader.step ⟨.start, [], [], records⟩ =
      some ⟨.start, [], [], records ++ rows.map (·.map guarded)⟩ := by
    induction rows with
    | nil => simp
    | cons texts rows ih =>
      intro records
      obtain ⟨first, later⟩ := List.forall_mem_cons.mp wide
      have rest := ih later (records ++ [texts.map guarded])
      rw [List.append_assoc] at rest
      rw [List.flatMap_cons, List.foldlM_append, foldlM_record first]
      exact rest
  unfold read
  rw [all]
  rfl

end fields
end Csv

namespace Sheet

variable {s : Sheet}

theorem getElem?_rowTexts {a : Address} {cell : Cell} (found : s.cellAt a = .ok cell) :
    (s.rowTexts a.row)[a.column]? = some cell.value.display.toList := by
  obtain ⟨id, here, live⟩ := cellAt_eq_ok.mp found
  obtain ⟨column, place, onColumn⟩ := idAt?_eq_some.mp here
  simp [rowTexts, place, onColumn, CellStore.valueOf, live]

theorem read_toCsv (reachable : s.Reachable) (wide : 0 < s.width) : ∃ records,
    Csv.read s.toCsv.toList = some records ∧ records.length = s.height ∧
    (∀ fields ∈ records, fields.length = s.width ∧ ∀ field ∈ fields, ¬ Csv.StartsFormula field) ∧
    ∀ a : Address, a.column < s.width → a.row < s.height → ∃ cell fields field,
      s.cellAt a = .ok cell ∧ records[a.row]? = some fields ∧ fields[a.column]? = some field ∧
      (Csv.StartsFormula cell.value.display.toList → field = '\'' :: cell.value.display.toList) ∧
      (¬ Csv.StartsFormula cell.value.display.toList → field = cell.value.display.toList) := by
  have laid := reachable.sound.laid
  have columns : ∀ i, (s.rowTexts i).length = s.width := fun i => List.length_map _
  refine ⟨(List.range s.height).map fun i => (s.rowTexts i).map Csv.guarded, ?_, ?_, ?_, ?_⟩
  · unfold toCsv
    rw [String.toList_ofList, ← List.flatMap_map, Csv.read_flatMap_record, List.map_map]
    · rfl
    · intro texts member
      obtain ⟨i, -, rfl⟩ := List.mem_map.mp member
      exact List.ne_nil_of_length_pos (by rwa [columns])
  · rw [List.length_map, List.length_range]
  · intro fields member
    obtain ⟨i, -, rfl⟩ := List.mem_map.mp member
    refine ⟨by rw [List.length_map, columns], fun field member => ?_⟩
    obtain ⟨text, -, rfl⟩ := List.mem_map.mp member
    exact Csv.not_startsFormula_guarded text
  · intro a column row
    obtain ⟨id, here⟩ := Option.isSome_iff_exists.mp (laid.isSome_idAt?.mpr ⟨column, row⟩)
    obtain ⟨cell, live⟩ := laid.exists_get? here
    have found : s.cellAt a = .ok cell := cellAt_eq_ok.mpr ⟨id, here, live⟩
    refine ⟨cell, (s.rowTexts a.row).map Csv.guarded, Csv.guarded cell.value.display.toList, found,
      ?_, ?_, Csv.guarded_of_startsFormula, Csv.guarded_of_not_startsFormula⟩
    · rw [List.getElem?_map, List.getElem?_range row, Option.map_some]
    · rw [List.getElem?_map, getElem?_rowTexts found, Option.map_some]

/-- A negative number, and a text that needs quotes. -/
def sampleTexts : Sheet :=
  (((ofSize 2 1).apply (.setInput ⟨0, 0⟩ "=2-7")).sheet.apply (.setInput ⟨1, 0⟩ "a, \"b\"")).sheet

theorem read_toCsv_sample : sampleTexts.toCsv = "'-5,\"a, \"\"b\"\"\"\n" ∧
    ∃ records fields, Csv.read sampleTexts.toCsv.toList = some records ∧ records.length = 1 ∧
      records[0]? = some fields ∧ fields[0]? = some "'-5".toList ∧
      fields[1]? = some "a, \"b\"".toList := by
  have reachable : sampleTexts.Reachable := by
    refine .apply (.apply (.ofSize ?_) _ ?_) _ ?_
    · decide
    · decide +kernel
    · decide +kernel
  have width : sampleTexts.width = 2 := by decide +kernel
  have height : sampleTexts.height = 1 := by decide +kernel
  obtain ⟨records, read, count, -, each⟩ := read_toCsv reachable (by rw [width]; decide)
  rw [width, height] at each
  obtain ⟨cell, fields, field, found, row, here, starts, -⟩ := each ⟨0, 0⟩ (by decide) (by decide)
  obtain ⟨cell', fields', field', found', row', here', -, plain⟩ := each ⟨1, 0⟩ (by decide) (by decide)
  have shown : (sampleTexts.cellAt ⟨0, 0⟩).map (·.value.display.toList) = .ok "-5".toList := by
    decide +kernel
  have shown' : (sampleTexts.cellAt ⟨1, 0⟩).map (·.value.display.toList) =
      .ok "a, \"b\"".toList := by decide +kernel
  rw [found] at shown
  rw [found'] at shown'
  have text : cell.value.display.toList = "-5".toList := Except.ok.inj shown
  have text' : cell'.value.display.toList = "a, \"b\"".toList := Except.ok.inj shown'
  rw [text, ← Csv.looksLikeFormula_iff] at starts
  rw [text', ← Csv.looksLikeFormula_iff] at plain
  obtain rfl : fields = fields' := Option.some.inj (row.symm.trans row')
  refine ⟨by decide +kernel, records, fields, read, count.trans height, row, ?_, ?_⟩
  · rw [here, starts (by decide)]
    rfl
  · rw [here', plain (by decide)]

end Sheet
end Spreadsheet
