import Spreadsheet.Proofs.GrammarSoundness
import Spreadsheet.Proofs.TextRuns

/-! What the grammar derives is read. A step may leave blanks in front of what follows or take
them along, so what it leaves is said up to blanks. -/
namespace Spreadsheet

namespace Text

theorem isBlank_of_mem_head?_dropBlanks {s : List Char} :
    ∀ c ∈ (dropBlanks s).head?, isBlank c = false := by
  intro c member
  have := List.head?_dropWhile_not isBlank s
  unfold dropBlanks at member
  rw [Option.mem_def.mp member] at this
  exact this

@[simp] theorem dropBlanks_dropBlanks (s : List Char) : dropBlanks (dropBlanks s) = dropBlanks s :=
  dropWhile_run (List.forall_mem_nil _) isBlank_of_mem_head?_dropBlanks

theorem length_dropBlanks_le (s : List Char) : (dropBlanks s).length ≤ s.length :=
  s.length_dropWhile_le isBlank

end Text

namespace Grammar
open Text

theorem dropBlanks_append {blanks : List Char} (blank : Blank blanks) (k : List Char) :
    dropBlanks (blanks ++ k) = dropBlanks k :=
  List.dropWhile_append_of_pos blank

theorem dropBlanks_token {token s : List Char} (h : Token token s) (visible : Stops isBlank token)
    (some : token ≠ []) (k : List Char) : dropBlanks (s ++ k) = token ++ k := by
  obtain ⟨blanks, blank, rfl⟩ := h
  obtain ⟨c, cs, rfl⟩ := List.exists_cons_of_ne_nil some
  rw [List.append_assoc, dropBlanks_append blank]
  exact dropWhile_run (List.forall_mem_nil _) (stops_cons (visible c rfl))

theorem dropBlanks_symbol {ch : Char} {s : List Char} (h : Token [ch] s) (visible : isBlank ch = false)
    (k : List Char) : dropBlanks (s ++ k) = ch :: k :=
  dropBlanks_token h (stops_cons visible) (by simp) k

end Grammar

namespace Cursor

variable {c : Cursor} {p : Char → Bool} {run k : List Char}

theorem span_run (front : c.rest = run ++ k) (all : ∀ x ∈ run, p x) (stop : Text.Stops p k) :
    c.span p = (run, ⟨k, c.position + run.length⟩) := by
  simp only [span, front, Text.takeWhile_run all stop, Text.dropWhile_run all stop]

theorem exists_eat? {ch : Char} (h : Text.dropBlanks c.rest = ch :: k) :
    ∃ d, c.eat? ch = some d ∧ d.rest = k := by
  have next : c.skipBlanks.rest = ch :: k := h
  refine ⟨c.skipBlanks.advance, ?_, by simp [advance, next]⟩
  unfold eat?
  simp [next]

theorem eat?_eq_none {ch : Char} (h : ch ∉ (Text.dropBlanks c.rest).head?) : c.eat? ch = none :=
  if_neg h

end Cursor

namespace Parser
open Grammar Formula

/-! Characters that tell the kinds of primaries apart. -/

theorem isUpper_facts {c : Char} (h : c.isUpper) : isNumberChar c = false ∧ c.isDigit = false ∧
    c ≠ '(' ∧ c ≠ '+' ∧ c ≠ '-' ∧ Text.isBlank c = false := by
  have range := Text.isUpper_iff.mp h
  have digit : c.isDigit = false := by
    rw [Bool.eq_false_iff, ne_eq, Text.isDigit_iff]
    omega
  have other : ∀ d : Char, d.toNat < 65 → c ≠ d := by
    rintro d less rfl
    omega
  refine ⟨?_, digit, other _ (by decide), other _ (by decide), other _ (by decide),
    Text.not_isBlank (by omega) (by omega)⟩
  simp [isNumberChar, digit, other '.' (by decide)]

theorem isNumberChar_facts {c : Char} (h : isNumberChar c) : c ≠ '(' ∧ c ≠ '+' ∧ c ≠ '-' ∧
    Text.isBlank c = false := by
  rcases isNumberChar_iff.mp h with digit | rfl
  · have range := Text.isDigit_iff.mp digit
    have other : ∀ d : Char, d.toNat < 48 → c ≠ d := by
      rintro d less rfl
      omega
    exact ⟨other _ (by decide), other _ (by decide), other _ (by decide),
      Text.not_isBlank (by omega) (by omega)⟩
  · decide

theorem name_facts (op : Aggregate) : Aggregate.ofName? (String.ofList op.name.toList) = some op ∧
    ∃ c cs, op.name.toList = c :: cs ∧ ∀ c ∈ op.name.toList, c.isUpper := by
  rw [← List.all_eq_true]
  cases op with
  | sum => exact ⟨by decide, 'S', ['U', 'M'], by decide, by decide⟩
  | average => exact ⟨by decide, 'A', ['V', 'G'], by decide, by decide⟩
  | maximum => exact ⟨by decide, 'M', ['A', 'X'], by decide, by decide⟩
  | minimum => exact ⟨by decide, 'M', ['I', 'N'], by decide, by decide⟩

/-! What may follow. -/

/-- Behind blanks the text goes on with one of the characters, or ends. -/
def GoesOnWith (allowed k : List Char) : Prop := ∀ c ∈ (Text.dropBlanks k).head?, c ∈ allowed

def endsExpression : List Char := [')', '+', '-']
def endsFactor : List Char := [')', '+', '-', '*', '/']
def endsPrimary : List Char := [')', '+', '-', '*', '/', '^']

theorem GoesOnWith.mono {allowed wider k : List Char} (h : GoesOnWith allowed k)
    (sub : allowed ⊆ wider) : GoesOnWith wider k :=
  fun c member => sub (h c member)

theorem goesOnWith_token {allowed t : List Char} {ch : Char} (token : Token [ch] t)
    (visible : Text.isBlank ch = false) (k : List Char) (h : ch ∈ allowed) :
    GoesOnWith allowed (t ++ k) := by
  intro c member
  rw [dropBlanks_symbol token visible] at member
  cases member
  exact h

/-- No blank is in the class. -/
def Visible (p : Char → Bool) : Prop := ∀ c, p c → Text.isBlank c = false

/-- A run of the class ends where none of its characters may follow. -/
theorem GoesOnWith.stops {allowed k : List Char} {p : Char → Bool} (h : GoesOnWith allowed k)
    (visible : Visible p) (none : allowed.any p = false) : Text.Stops p k := by
  intro c member
  rw [Bool.eq_false_iff]
  intro inClass
  have stays : Text.dropBlanks k = k :=
    Text.dropWhile_run (List.forall_mem_nil _) fun d same =>
      Option.mem_unique member same ▸ visible c inClass
  have allowed := h c (stays.symm ▸ member)
  exact List.any_eq_false.mp none c allowed inClass

theorem visible_isNumberChar : Visible isNumberChar := fun _ h => (isNumberChar_facts h).2.2.2

theorem visible_isDigit : Visible Char.isDigit :=
  fun c h => visible_isNumberChar c (isNumberChar_iff.mpr (.inl h))

theorem visible_isUpper : Visible Char.isUpper := fun _ h => (isUpper_facts h).2.2.2.2.2

theorem stops_token {p : Char → Bool} {t : List Char} {ch : Char} (token : Token [ch] t)
    (blank : Text.isBlank ch = false) (visible : Visible p) (other : p ch = false) (k : List Char) :
    Text.Stops p (t ++ k) :=
  (goesOnWith_token token blank k (List.mem_singleton_self ch)).stops visible (by simp [other])

/-! Steps and chains. -/

/-- The step takes the text for `a`, and stops where the text goes on with `k`. -/
def Reads {α : Type} (step : Step α) (s k : List Char) (a : α) : Prop :=
  ∀ c : Cursor, c.rest = s ++ k → ∃ d : Cursor, step c = .ok (a, d) ∧
    Text.dropBlanks d.rest = Text.dropBlanks k

/-- The chain has read the text as `f`, and is about to look for a further operand in `k`. -/
def Chains (op? : Char → Option BinaryOp) (operand : Step Formula) (s k : List Char) (f : Formula) :
    Prop :=
  ∀ c : Cursor, c.rest = s ++ k → ∃ fuel, ∃ d : Cursor,
    chain op? operand c = chainFrom op? operand fuel f d ∧
      Text.dropBlanks d.rest = Text.dropBlanks k ∧ (Text.dropBlanks k).length ≤ fuel

variable {r : Resolver} {op? : Char → Option BinaryOp} {operand : Step Formula}
  {s k : List Char} {f : Formula}

theorem Reads.chains (h : Reads operand s k f) : Chains op? operand s k f := by
  intro c front
  obtain ⟨d, read, left⟩ := h c front
  refine ⟨d.rest.length, d, ?_, left, left ▸ Text.length_dropBlanks_le _⟩
  unfold chain
  rw [read, ok_bind]

theorem Chains.reads (h : Chains op? operand s k f)
    (stop : ∀ c ∈ (Text.dropBlanks k).head?, op? c = none) : Reads (chain op? operand) s k f := by
  intro c front
  obtain ⟨fuel, d, same, left, -⟩ := h c front
  cases fuel with
  | zero => exact ⟨d, same, left⟩
  | succ fuel =>
    have done : (Text.dropBlanks d.rest).head?.bind op? = none := by
      rw [left]
      exact Option.bind_eq_none_iff.mpr stop
    refine ⟨d.skipBlanks, same.trans ?_, (Text.dropBlanks_dropBlanks _).trans left⟩
    unfold chainFrom
    simp only [show d.skipBlanks.rest = Text.dropBlanks d.rest from rfl, done]

theorem Chains.join {symbol : Char} {op : BinaryOp} {t u : List Char} {g : Formula}
    (hl : Chains op? operand s (t ++ (u ++ k)) f) (token : Token [symbol] t)
    (hr : Reads operand u k g) (isOp : op? symbol = some op) (visible : Text.isBlank symbol = false)
    (shallow : (Formula.binary op f g).depth ≤ depthLimit) :
    Chains op? operand (s ++ t ++ u) k (.binary op f g) := by
  intro c front
  rw [List.append_assoc, List.append_assoc] at front
  obtain ⟨fuel, d, same, left, room⟩ := hl c front
  rw [dropBlanks_symbol token visible] at left room
  obtain ⟨fuel, rfl⟩ : ∃ n, fuel = n + 1 := ⟨fuel - 1, by simp at room; omega⟩
  have next : d.skipBlanks.rest = symbol :: (u ++ k) := left
  obtain ⟨e, read, left'⟩ := hr d.skipBlanks.advance (by simp [Cursor.advance, next])
  refine ⟨fuel, e, same.trans ?_, left', ?_⟩
  · conv_lhs => unfold chainFrom
    simp only [next, List.head?_cons, Option.bind_some, isOp, read, ok_bind,
      bounded_eq_ok.mpr ⟨shallow, rfl⟩]
  · have := Text.length_dropBlanks_le k
    simp at room
    omega

/-! Leaves. -/

/-- The two runs of a label. -/
theorem span_label {letters digits : List Char} {c : Cursor} (front : c.rest = letters ++ digits ++ k)
    (upper : ∀ x ∈ letters, x.isUpper) (digit : digits ≠ [] ∧ ∀ x ∈ digits, x.isDigit)
    (next : Text.Stops Char.isDigit k) :
    ∃ between after, c.span Char.isUpper = (letters, ⟨digits ++ k, between⟩) ∧
      Cursor.span Char.isDigit ⟨digits ++ k, between⟩ = (digits, ⟨k, after⟩) := by
  have stop : Text.Stops Char.isUpper (digits ++ k) := by
    obtain ⟨d, ds, rfl⟩ := List.exists_cons_of_ne_nil digit.1
    refine Text.stops_cons (Bool.eq_false_iff.mpr fun upper => ?_)
    have := digit.2 d List.mem_cons_self
    rw [(isUpper_facts upper).2.1] at this
    contradiction
  rw [List.append_assoc] at front
  exact ⟨_, _, Cursor.span_run front upper stop, Cursor.span_run rfl digit.2 next⟩

theorem dropBlanks_label {letters digits : List Char} (token : Token (letters ++ digits) s)
    (upper : letters ≠ [] ∧ ∀ x ∈ letters, x.isUpper) :
    Text.dropBlanks (s ++ k) = letters ++ digits ++ k := by
  obtain ⟨l, ls, rfl⟩ := List.exists_cons_of_ne_nil upper.1
  exact dropBlanks_token token
    (Text.stops_cons (visible_isUpper l (upper.2 l List.mem_cons_self))) (by simp) k

theorem corner_reads {a : Address} (label : Label s a) (next : Text.Stops Char.isDigit k) (c : Cursor)
    (front : c.rest = s ++ k) : ∃ position chars d, corner c = .ok ((position, chars, a), d) ∧
      d.rest = k := by
  obtain ⟨letters, digits, token, upper, digit, address⟩ := label
  have skipped : c.skipBlanks.rest = letters ++ digits ++ k := by
    rw [← dropBlanks_label token upper, ← front]
    rfl
  obtain ⟨between, after, spanLetters, spanDigits⟩ := span_label skipped upper.2 digit next
  refine ⟨c.skipBlanks.position, letters ++ digits, ⟨k, after⟩, ?_, rfl⟩
  unfold corner
  simp only [spanLetters, spanDigits, if_neg upper.1, if_neg digit.1,
    addressOf_eq_ok.mpr address, ok_bind]
  rfl

theorem rangeCall_reads {op : Aggregate} {t u : List Char} {a b : Address} {first : CellId}
    {rest : List CellId} (corners : Corners t a b) (closing : Token [')'] u)
    (resolved : r.range a b = some (first :: rest)) (paren : Nat) (c : Cursor)
    (front : c.rest = t ++ (u ++ k)) :
    ∃ d, rangeCall r op paren c = .ok (.range op first rest, d) ∧ d.rest = k := by
  have noDigit : Text.Stops Char.isDigit (u ++ k) := stops_token closing rfl visible_isDigit rfl k
  cases corners with
  | single label =>
    obtain ⟨position, chars, d, read, left⟩ := corner_reads label noDigit c front
    have noColon : d.eat? ':' = none := by
      rw [Cursor.eat?_eq_none]
      rw [left, dropBlanks_symbol closing rfl]
      simp
    obtain ⟨e, closed, done⟩ : ∃ e, d.eat? ')' = some e ∧ e.rest = k := by
      refine Cursor.exists_eat? ?_
      rw [left, dropBlanks_symbol closing rfl]
    refine ⟨e, ?_, done⟩
    unfold rangeCall
    rw [read]
    simp only [ok_bind, noColon, pure_bind, closed, resolved]
    rfl
  | @pair s t v _ _ label colon label' =>
    rw [List.append_assoc, List.append_assoc] at front
    have noDigit' : Text.Stops Char.isDigit (t ++ (v ++ (u ++ k))) :=
      stops_token colon rfl visible_isDigit rfl _
    obtain ⟨position, chars, d, read, left⟩ := corner_reads label noDigit' c front
    obtain ⟨d', isColon, left'⟩ : ∃ d', d.eat? ':' = some d' ∧ d'.rest = v ++ (u ++ k) := by
      refine Cursor.exists_eat? ?_
      rw [left, dropBlanks_symbol colon rfl]
    obtain ⟨position', chars', e, read', left''⟩ := corner_reads label' noDigit d' left'
    obtain ⟨e', closed, done⟩ : ∃ e', e.eat? ')' = some e' ∧ e'.rest = k := by
      refine Cursor.exists_eat? ?_
      rw [left'', dropBlanks_symbol closing rfl]
    refine ⟨e', ?_, done⟩
    unfold rangeCall
    rw [read]
    simp only [ok_bind, isColon, read', pure_bind, closed, resolved]
    rfl

/-- The primary behind the blanks that a factor skips. -/
def primaryBehindBlanks (r : Resolver) (factor : Step Formula) : Step Formula :=
  fun c => primary r factor c.skipBlanks

theorem number_reads {n : Float} (numeral : Numeral s n) (next : GoesOnWith endsPrimary k) :
    Reads (primaryBehindBlanks r operand) s k (.number n) := by
  obtain ⟨literal, token, some, all, value⟩ := numeral
  obtain ⟨ch, cs, rfl⟩ := List.exists_cons_of_ne_nil some
  have chars : ∀ x ∈ ch :: cs, isNumberChar x := fun x member => isNumberChar_iff.mpr (all x member)
  have first := chars ch List.mem_cons_self
  have stop : Text.Stops isNumberChar k := next.stops visible_isNumberChar (by decide)
  intro c front
  have skipped : c.skipBlanks.rest = ch :: cs ++ k := by
    rw [← dropBlanks_token token (Text.stops_cons (visible_isNumberChar ch first)) some, ← front]
    rfl
  refine ⟨⟨k, c.skipBlanks.position + (ch :: cs).length⟩, ?_, rfl⟩
  unfold primaryBehindBlanks primary number
  simp only [skipped, List.cons_append, if_neg (isNumberChar_facts first).1, if_pos first,
    Cursor.span_run skipped chars stop, value]

theorem primary_of_isUpper {c : Cursor} {ch : Char} {cs : List Char} (front : c.rest = ch :: cs)
    (upper : ch.isUpper) : primary r operand c = named r c := by
  have facts := isUpper_facts upper
  unfold primary
  simp only [front]
  rw [if_neg facts.2.2.1, if_neg (by simp [facts.1]), if_pos upper]

theorem reference_reads {a : Address} {cell : CellId} (label : Label s a)
    (resolved : r.cell a = some cell) (next : GoesOnWith endsPrimary k) :
    Reads (primaryBehindBlanks r operand) s k (.reference cell) := by
  obtain ⟨letters, digits, token, upper, digit, address⟩ := label
  intro c front
  have skipped : c.skipBlanks.rest = letters ++ digits ++ k := by
    rw [← dropBlanks_label token upper, ← front]
    rfl
  obtain ⟨between, after, spanLetters, spanDigits⟩ :=
    span_label skipped upper.2 digit (next.stops visible_isDigit (by decide))
  obtain ⟨l, ls, letters⟩ := List.exists_cons_of_ne_nil upper.1
  refine ⟨⟨k, after⟩, ?_, rfl⟩
  unfold primaryBehindBlanks
  rw [primary_of_isUpper (by rw [skipped, letters]; rfl) (upper.2 l (by simp [letters]))]
  unfold named
  simp only [spanLetters, spanDigits]
  rw [if_pos digit.1, addressOf_eq_ok.mpr address]
  simp only [ok_bind, resolved]
  rfl

theorem range_reads {op : Aggregate} {t u v : List Char} {a b : Address} {first : CellId}
    {rest : List CellId} (name : Token op.name.toList s) (opening : Token ['('] t)
    (corners : Corners u a b) (closing : Token [')'] v)
    (resolved : r.range a b = some (first :: rest)) :
    Reads (primaryBehindBlanks r operand) (s ++ t ++ u ++ v) k (.range op first rest) := by
  obtain ⟨known, ch, cs, text, upper⟩ := name_facts op
  have firstUpper := upper ch (by simp [text])
  intro c front
  have front : c.rest = s ++ (t ++ (u ++ (v ++ k))) := by
    rw [front]
    simp only [List.append_assoc]
  have skipped : c.skipBlanks.rest = op.name.toList ++ (t ++ (u ++ (v ++ k))) := by
    rw [← dropBlanks_token name (text ▸ Text.stops_cons (visible_isUpper ch firstUpper))
      (by simp [text]), ← front]
    rfl
  have letters := Cursor.span_run skipped upper (stops_token opening rfl visible_isUpper rfl _)
  have noDigits (position : Nat) : Cursor.span Char.isDigit ⟨t ++ (u ++ (v ++ k)), position⟩ =
      ([], ⟨t ++ (u ++ (v ++ k)), position⟩) :=
    Cursor.span_run rfl (List.forall_mem_nil _) (stops_token opening rfl visible_isDigit rfl _)
  obtain ⟨d, opened, left⟩ := Cursor.exists_eat? (k := u ++ (v ++ k))
    (c := ⟨t ++ (u ++ (v ++ k)), c.skipBlanks.position + op.name.toList.length⟩)
    (dropBlanks_symbol opening rfl _)
  obtain ⟨e, read, done⟩ := rangeCall_reads corners closing resolved (d.position - 1) d left
  refine ⟨e, ?_, by rw [done]⟩
  unfold primaryBehindBlanks
  rw [primary_of_isUpper (by rw [skipped, text]; rfl) firstUpper]
  unfold named
  simp only [letters, noDigits, opened, known, ne_eq, not_true_eq_false, if_false]
  exact read

/-! Compounds. -/

theorem parens_reads {t u : List Char} (opening : Token ['('] s) (closing : Token [')'] u)
    (h : Reads (expression operand) t (u ++ k) f) :
    Reads (primaryBehindBlanks r operand) (s ++ t ++ u) k f := by
  intro c front
  have skipped : c.skipBlanks.rest = '(' :: (t ++ (u ++ k)) := by
    rw [← dropBlanks_symbol opening rfl, ← List.append_assoc, ← List.append_assoc, ← front]
    rfl
  obtain ⟨d, read, left⟩ := h c.skipBlanks.advance (by simp [Cursor.advance, skipped])
  rw [dropBlanks_symbol closing rfl] at left
  obtain ⟨e, closed, done⟩ := Cursor.exists_eat? left
  refine ⟨e, ?_, by rw [done]⟩
  unfold primaryBehindBlanks primary
  simp only [skipped, if_true, read, ok_bind, closed]
  rfl

variable {room : Nat}

theorem plus_reads {t : List Char} (plus : Token ['+'] s) (h : Reads (factor r room) t k f) :
    Reads (factor r (room + 1)) (s ++ t) k f := by
  intro c front
  have skipped : c.skipBlanks.rest = '+' :: (t ++ k) := by
    rw [← dropBlanks_symbol plus rfl, ← List.append_assoc, ← front]
    rfl
  obtain ⟨d, read, left⟩ := h c.skipBlanks.advance (by simp [Cursor.advance, skipped])
  refine ⟨d, ?_, left⟩
  unfold factor
  simp only [skipped, List.head?_cons, if_true]
  exact read

theorem minus_reads {t : List Char} (minus : Token ['-'] s) (h : Reads (factor r room) t k f)
    (shallow : (Formula.negate f).depth ≤ depthLimit) :
    Reads (factor r (room + 1)) (s ++ t) k (.negate f) := by
  intro c front
  have skipped : c.skipBlanks.rest = '-' :: (t ++ k) := by
    rw [← dropBlanks_symbol minus rfl, ← List.append_assoc, ← front]
    rfl
  obtain ⟨d, read, left⟩ := h c.skipBlanks.advance (by simp [Cursor.advance, skipped])
  refine ⟨d, ?_, left⟩
  unfold factor
  simp only [skipped, List.head?_cons, Option.some.injEq, read, ok_bind, if_true,
    bounded_eq_ok.mpr ⟨shallow, rfl⟩]
  rfl

/-- Behind blanks a primary starts with a character that is no sign. -/
theorem not_sign {n : Nat} (h : Derives r .primary s f n) (k : List Char) :
    ∀ c ∈ (Text.dropBlanks (s ++ k)).head?, c ≠ '+' ∧ c ≠ '-' := by
  cases h with
  | number numeral =>
    obtain ⟨literal, token, some, all, -⟩ := numeral
    obtain ⟨ch, cs, rfl⟩ := List.exists_cons_of_ne_nil some
    have facts := isNumberChar_facts (isNumberChar_iff.mpr (all ch List.mem_cons_self))
    rw [dropBlanks_token token (Text.stops_cons facts.2.2.2) some]
    rintro c ⟨⟩
    exact ⟨facts.2.1, facts.2.2.1⟩
  | parens opening =>
    rw [List.append_assoc, List.append_assoc, dropBlanks_symbol opening rfl]
    rintro c ⟨⟩
    decide
  | reference label =>
    obtain ⟨letters, digits, token, upper, -⟩ := label
    rw [dropBlanks_label token upper]
    obtain ⟨l, ls, rfl⟩ := List.exists_cons_of_ne_nil upper.1
    have facts := isUpper_facts (upper.2 l List.mem_cons_self)
    rintro c ⟨⟩
    exact ⟨facts.2.2.2.1, facts.2.2.2.2.1⟩
  | @range op _ _ _ _ _ _ _ _ name =>
    obtain ⟨-, ch, cs, text, upper⟩ := name_facts op
    have facts := isUpper_facts (upper ch (by simp [text]))
    rw [text] at name
    rw [List.append_assoc, List.append_assoc, List.append_assoc,
      dropBlanks_token name (Text.stops_cons facts.2.2.2.2.2) (by simp)]
    rintro c ⟨⟩
    exact ⟨facts.2.2.2.1, facts.2.2.2.2.1⟩

/-- Neither sign stands in front, so a factor is a primary and what it may be raised to. -/
theorem factor_of_not_sign {c : Cursor}
    (start : ∀ ch ∈ (Text.dropBlanks c.rest).head?, ch ≠ '+' ∧ ch ≠ '-') :
    factor r (room + 1) c = (do
      let (base, d) ← primaryBehindBlanks r (factor r room) c
      match d.eat? '^' with
      | none => return (base, d)
      | some d =>
        let (exponent, d) ← factor r room d
        return (← bounded c.skipBlanks.position (.binary .pow base exponent), d)) := by
  have plus : c.skipBlanks.rest.head? ≠ some '+' := fun same => (start '+' same).1 rfl
  have minus : c.skipBlanks.rest.head? ≠ some '-' := fun same => (start '-' same).2 rfl
  conv_lhs => unfold factor
  simp only [if_neg plus, if_neg minus]
  rfl

theorem primary_reads_factor {n : Nat} (derived : Derives r .primary s f n)
    (h : Reads (primaryBehindBlanks r (factor r room)) s k f)
    (noPower : '^' ∉ (Text.dropBlanks k).head?) : Reads (factor r (room + 1)) s k f := by
  intro c front
  obtain ⟨d, read, left⟩ := h c front
  refine ⟨d, ?_, left⟩
  rw [factor_of_not_sign (front ▸ not_sign derived k), read]
  simp only [ok_bind, Cursor.eat?_eq_none (left ▸ noPower)]
  rfl

theorem power_reads {n : Nat} {t u : List Char} {g : Formula} (derived : Derives r .primary s f n)
    (hb : Reads (primaryBehindBlanks r (factor r room)) s (t ++ (u ++ k)) f) (power : Token ['^'] t)
    (he : Reads (factor r room) u k g) (shallow : (Formula.binary .pow f g).depth ≤ depthLimit) :
    Reads (factor r (room + 1)) (s ++ t ++ u) k (.binary .pow f g) := by
  intro c front
  have front : c.rest = s ++ (t ++ (u ++ k)) := by
    rw [front]
    simp only [List.append_assoc]
  obtain ⟨d, readBase, left⟩ := hb c front
  rw [dropBlanks_symbol power rfl] at left
  obtain ⟨d', raised, left'⟩ := Cursor.exists_eat? left
  obtain ⟨e, readExponent, done⟩ := he d' left'
  refine ⟨e, ?_, done⟩
  rw [factor_of_not_sign (front ▸ not_sign derived _), readBase]
  simp only [ok_bind, raised, readExponent, bounded_eq_ok.mpr ⟨shallow, rfl⟩]
  rfl

/-- That the text of a symbol is read as `f`, whatever may follow it there. -/
def IsRead (r : Resolver) (s : List Char) (f : Formula) (n : Nat) : Symbol → Prop
  | .expression => ∀ room k, n ≤ room → GoesOnWith endsExpression k →
      Chains additive? (chain multiplicative? (factor r room)) s k f
  | .term => ∀ room k, n ≤ room → GoesOnWith endsFactor k →
      Chains multiplicative? (factor r room) s k f
  | .factor => ∀ room k, n ≤ room → GoesOnWith endsFactor k → Reads (factor r room) s k f
  | .primary => ∀ room k, n ≤ room → GoesOnWith endsPrimary k →
      Reads (primaryBehindBlanks r (factor r room)) s k f

theorem IsRead.term_reads {n : Nat} (h : IsRead r s f n .term) (fits : n ≤ room)
    (next : GoesOnWith endsExpression k) : Reads (chain multiplicative? (factor r room)) s k f := by
  have none : endsExpression.all fun c => (multiplicative? c).isNone := by decide
  refine (h room k fits (next.mono (by decide))).reads fun c member => ?_
  exact Option.isNone_iff_eq_none.mp (List.all_eq_true.mp none c (next c member))

theorem IsRead.expression_reads {n : Nat} (h : IsRead r s f n .expression) (fits : n ≤ room)
    (next : GoesOnWith [')'] k) : Reads (expression (factor r room)) s k f := by
  refine (h room k fits (next.mono (by decide))).reads fun c member => ?_
  rw [List.mem_singleton.mp (next c member)]
  rfl

/-- By the rules of the grammar. An operator follows its left operand, so no more than that
operand is read before it. -/
theorem isRead_of_derives {symbol : Symbol} {n : Nat} (h : Derives r symbol s f n)
    (shallow : f.depth ≤ depthLimit) : IsRead r s f n symbol := by
  induction h with
  | term _ ih => exact fun room k fits next => ((ih shallow).term_reads fits next).chains
  | @sum op _ _ _ _ _ _ _ isSum _ token _ ihl ihr =>
    intro room k fits next
    simp only [Formula.depth] at shallow
    have facts : op.symbol ∈ endsExpression ∧ additive? op.symbol = some op ∧
        Text.isBlank op.symbol = false := by
      rcases isSum with rfl | rfl <;> decide
    exact (ihl (by omega) room _ (by omega) (goesOnWith_token token facts.2.2 _ facts.1)).join token
      ((ihr (by omega)).term_reads (by omega) next) facts.2.1 facts.2.2 shallow
  | factor _ ih => exact fun room k fits next => (ih shallow room k fits next).chains
  | @product op _ _ _ _ _ _ _ isProduct _ token _ ihl ihr =>
    intro room k fits next
    simp only [Formula.depth] at shallow
    have facts : op.symbol ∈ endsFactor ∧ multiplicative? op.symbol = some op ∧
        Text.isBlank op.symbol = false := by
      rcases isProduct with rfl | rfl <;> decide
    exact (ihl (by omega) room _ (by omega) (goesOnWith_token token facts.2.2 _ facts.1)).join token
      (ihr (by omega) room k (by omega) next) facts.2.1 facts.2.2 shallow
  | plus token _ ih =>
    intro room k fits next
    obtain ⟨room, rfl⟩ : ∃ m, room = m + 1 := ⟨room - 1, by omega⟩
    exact plus_reads token (ih shallow room k (by omega) next)
  | minus token _ ih =>
    intro room k fits next
    obtain ⟨room, rfl⟩ : ∃ m, room = m + 1 := ⟨room - 1, by omega⟩
    simp only [Formula.depth] at shallow
    exact minus_reads token (ih (by omega) room k (by omega) next) shallow
  | primary derived ih =>
    intro room k fits next
    obtain ⟨room, rfl⟩ : ∃ m, room = m + 1 := ⟨room - 1, by omega⟩
    exact primary_reads_factor derived (ih shallow room k (by omega) (next.mono (by decide)))
      fun power => absurd (next '^' power) (by decide)
  | power derived token _ ihb ihe =>
    intro room k fits next
    obtain ⟨room, rfl⟩ : ∃ m, room = m + 1 := ⟨room - 1, by omega⟩
    simp only [Formula.depth] at shallow
    exact power_reads derived
      (ihb (by omega) room _ (by omega) (goesOnWith_token token rfl _ (by decide))) token
      (ihe (by omega) room k (by omega) next) shallow
  | number numeral => exact fun _ _ _ next => number_reads numeral next
  | parens opening _ closing ih =>
    intro room k fits next
    exact parens_reads opening closing
      ((ih shallow).expression_reads fits (goesOnWith_token closing rfl k (by decide)))
  | reference label resolved => exact fun _ _ _ next => reference_reads label resolved next
  | range name opening corners closing resolved =>
    exact fun _ _ _ _ => range_reads name opening corners closing resolved

end Parser

namespace Formula
open Grammar

variable {r : Resolver}

theorem parseWithin_of_derives {body blanks : List Char} {f : Formula} {n room : Nat}
    (h : Derives r .expression body f n) (fits : n ≤ room)
    (shallow : f.depth ≤ Parser.depthLimit) (blank : Blank blanks) :
    parseWithin r room (body ++ blanks) = .ok f := by
  have nothing : Text.dropBlanks blanks = [] := Text.dropWhile_all blank
  have ends : Parser.GoesOnWith [')'] blanks := by simp [Parser.GoesOnWith, nothing]
  obtain ⟨c, read, left⟩ := (Parser.isRead_of_derives h shallow).expression_reads fits ends
    (.start (body ++ blanks)) rfl
  unfold parseWithin
  rw [read, ok_bind]
  simp only [show c.skipBlanks.rest = [] from left.trans nothing]
  rfl

theorem parse_of_derives {body blanks : List Char} {f : Formula} {n : Nat}
    (h : Derives r .expression body f n) (fits : n ≤ Parser.nestingLimit)
    (shallow : f.depth ≤ Parser.depthLimit) (blank : Blank blanks) :
    parse r (body ++ blanks) = .ok f :=
  parse_eq_parseWithin.trans (parseWithin_of_derives h fits shallow blank)

/-- More room changes nothing about what has been read. -/
theorem parseWithin_mono {s : List Char} {f : Formula} {room wider : Nat}
    (h : parseWithin r room s = .ok f) (more : room ≤ wider) : parseWithin r wider s = .ok f := by
  obtain ⟨_, _, rfl, blank, shallow, n, fits, derived⟩ := derives_of_parseWithin h
  exact parseWithin_of_derives derived (fits.trans more) shallow blank

/-- The parser accepts the texts of the grammar within its limits, blanks at the end allowed, and
reads them as the grammar says. -/
theorem parse_eq_ok_iff {s : List Char} {f : Formula} : parse r s = .ok f ↔
    ∃ body blanks n, s = body ++ blanks ∧ Blank blanks ∧ Derives r .expression body f n ∧
      n ≤ Parser.nestingLimit ∧ f.depth ≤ Parser.depthLimit := by
  constructor
  · intro h
    obtain ⟨body, blanks, rfl, blank, shallow, n, fits, derived⟩ := derives_of_parse h
    exact ⟨body, blanks, n, rfl, blank, derived, fits, shallow⟩
  · rintro ⟨body, blanks, n, rfl, blank, derived, fits, shallow⟩
    exact parse_of_derives derived fits shallow blank

end Formula
end Spreadsheet
