import Spreadsheet.Proofs.GrammarSoundness
import Spreadsheet.Proofs.Places

/-! What the error of a formula says of its position is true of the text, and an unexpected
character is refused whatever stands behind it. -/
namespace Spreadsheet
open Cursor

/-- From the position on, the text begins with the piece. -/
def StandsAt (s : List Char) (p : Nat) (piece : List Char) : Prop :=
  p ≤ s.length ∧ piece <+: s.drop p

namespace ParseError

/-- An error of a range that holds no cells has no position. -/
def position? : ParseError → Option Nat
  | unexpectedCharacter p _ | unexpectedEnd p | trailingInput p _ | unmatchedParen p
  | invalidNumber p _ | invalidAddress p _ | unresolvedAddress p _ | unknownFunction p _
  | tooDeep p => some p
  | emptyRange => none

/-- What the error names stands in the text at its position. -/
def IsTrueOf (s : List Char) : ParseError → Prop
  | unexpectedCharacter p found | trailingInput p found => s[p]? = some found
  | unexpectedEnd p => p = s.length
  | unmatchedParen p => s[p]? = some '('
  | invalidNumber p piece | invalidAddress p piece | unknownFunction p piece =>
    StandsAt s p piece.toList
  | unresolvedAddress p _ | tooDeep p => p ≤ s.length
  | emptyRange => True

/-- The place of the character with which the text stopped being the beginning of a formula. -/
def refusedAt? : ParseError → Option Nat
  | unexpectedCharacter p _ | trailingInput p _ => some p
  | _ => none

end ParseError

variable {s t : List Char} {p p' q : Nat}

theorem ParseError.IsTrueOf.position_le {e : ParseError} (h : e.IsTrueOf s)
    (position : e.position? = some p) : p ≤ s.length := by
  cases e <;> cases position
  case unexpectedCharacter | trailingInput | unmatchedParen => exact (lt_length h).le
  case unexpectedEnd => exact Nat.le_of_eq h
  case invalidNumber | invalidAddress | unknownFunction => exact h.1
  case unresolvedAddress | tooDeep => exact h

theorem standsAt_run (P : Char → Bool) (inside : p ≤ s.length) :
    StandsAt s p (String.ofList (run P s p)).toList := by
  rw [String.toList_ofList]
  exact ⟨inside, List.takeWhile_prefix P⟩

/-- Two runs one behind the other. -/
theorem standsAt_runs (P Q : Char → Bool) (inside : p ≤ s.length) :
    StandsAt s p (String.ofList (run P s p ++ run Q s (p + (run P s p).length))).toList := by
  have whole : s.drop p = run P s p ++ s.drop (p + (run P s p).length) := by
    rw [← dropWhile_drop, run, List.takeWhile_append_dropWhile]
  rw [String.toList_ofList]
  refine ⟨inside, ?_⟩
  rw [whole]
  exact (List.prefix_append_right_inj _).mpr (List.takeWhile_prefix Q)

namespace Parser

/-- Readings of `s` and of `t`, both from `p` on. That of `s` ends inside the text, or with an error
that is true of it; and the one of `t` is the same if that of `s` has looked at nothing from `q` on,
where an error that refuses no character counts as looking further. -/
inductive Twin {α : Type} (s t : List Char) (q p : Nat) :
    Except ParseError (α × Cursor) → Except ParseError (α × Cursor) → Prop
  | ok {a : α} {p' : Nat} {y : Except ParseError (α × Cursor)} (later : p ≤ p')
      (inside : p' ≤ s.length) (same : skip s p' < q → y = .ok (a, place t p')) :
      Twin s t q p (.ok (a, place s p')) y
  | error {e : ParseError} {y : Except ParseError (α × Cursor)} (holds : e.IsTrueOf s)
      (same : ∀ i, e.refusedAt? = some i → skip s p ≤ i ∧ (i < q → y = .error e)) :
      Twin s t q p (.error e) y

namespace Twin

variable {α β : Type} {x y z : Except ParseError (α × Cursor)}

theorem mono (h : Twin s t q p' x y) (later : p ≤ p') : Twin s t q p x y := by
  cases h with
  | ok later' inside same => exact .ok (later.trans later') inside same
  | error holds same =>
    refine .error holds fun i refused => ?_
    obtain ⟨behind, same⟩ := same i refused
    exact ⟨(skip_mono s later).trans behind, same⟩

/-- It is enough to know the reading of `t` where the place from which it starts is before `q`. -/
theorem of_eq (same : skip s p < q → y = z) (h : Twin s t q p x z) : Twin s t q p x y := by
  cases h with
  | ok later inside same' =>
    exact .ok later inside fun before =>
      (same ((skip_mono s later).trans_lt before)).trans (same' before)
  | error holds same' =>
    refine .error holds fun i refused => ?_
    obtain ⟨behind, same'⟩ := same' i refused
    exact ⟨behind, fun before => (same (behind.trans_lt before)).trans (same' before)⟩

theorem bind {f g : α × Cursor → Except ParseError (β × Cursor)} (h : Twin s t q p x y)
    (next : ∀ a p', x = .ok (a, place s p') → p ≤ p' → p' ≤ s.length →
      Twin s t q p' (f (a, place s p')) (g (a, place t p'))) :
    Twin s t q p (x >>= f) (y >>= g) := by
  cases h with
  | @ok a p' _ later inside same =>
    refine (Twin.of_eq (fun before => ?_) (next a p' rfl later inside)).mono later
    rw [same before]
    rfl
  | error holds same =>
    refine .error holds fun i refused => ?_
    obtain ⟨behind, same⟩ := same i refused
    refine ⟨behind, fun before => ?_⟩
    rw [same before]
    rfl

theorem fail {e : ParseError} (holds : e.IsTrueOf s) (refuses : e.refusedAt? = none) :
    Twin s t q p (.error e) y :=
  .error holds fun i refused => by
    rw [refuses] at refused
    contradiction

end Twin

variable {r : Resolver}

/-- The step reads `t` as it reads `s`, from any position. -/
def Twins {α : Type} (s t : List Char) (q : Nat) (step : Step α) : Prop :=
  ∀ p ≤ s.length, Twin s t q p (step (place s p)) (step (place t p))

theorem bounded_eq_error {position : Nat} {f : Formula} {e : ParseError}
    (h : bounded position f = .error e) : e = .tooDeep position := by
  unfold bounded at h
  split at h <;> cases h
  rfl

theorem addressOf_eq_error {position : Nat} {label : List Char} {e : ParseError}
    (h : addressOf position label = .error e) :
    e = .invalidAddress position (String.ofList label) := by
  unfold addressOf at h
  split at h <;> cases h
  rfl

theorem Twin.bind_bounded {β : Type} {position : Nat} {whole : Formula}
    {f g : Formula → Except ParseError (β × Cursor)} (inside : position ≤ s.length)
    (next : Twin s t q p (f whole) (g whole)) :
    Twin s t q p (bounded position whole >>= f) (bounded position whole >>= g) := by
  cases fits : bounded position whole with
  | error e =>
    cases bounded_eq_error fits
    exact .fail inside rfl
  | ok g' =>
    cases (bounded_eq_ok.mp fits).2
    exact next

section alike
variable (alike : ∀ i < q, s[i]? = t[i]?)
include alike

/-- Nothing that the grammar allows stands at `k`. -/
theorem Twin.unexpected {α : Type} {y : Except ParseError (α × Cursor)} {k : Nat}
    (later : skip s p ≤ k) (inside : k ≤ s.length)
    (same : k < q → y = .error (place t k).unexpected) :
    Twin s t q p (.error (place s k).unexpected) y := by
  cases here : s[k]? with
  | none =>
    have ends : k = s.length := Nat.le_antisymm inside (List.getElem?_eq_none_iff.mp here)
    rw [unexpected_of_none here]
    exact .fail ends rfl
  | some c =>
    rw [unexpected_of_some here]
    refine .error here fun i refused => ?_
    cases refused
    refine ⟨later, fun before => ?_⟩
    rw [same before, unexpected_of_some ((alike k before).symm.trans here)]

/-! Chains. -/

section chain
variable {op? : Char → Option BinaryOp} {operand : Step Formula} {fuel : Nat} {left : Formula}
  {k : Nat}

omit alike in
theorem chainFrom_stop (ends : skip s p = k) (stop : s[k]?.bind op? = none)
    (enough : s.length ≤ p + fuel) :
    chainFrom op? operand fuel left (place s p) = .ok (left, place s k) := by
  cases fuel with
  | zero =>
    have here : skip s p = p := skip_eq_self fun c here => absurd (lt_length here) (by omega)
    rw [← ends, here]
    rfl
  | succ fuel => simp only [chainFrom, skipBlanks_place, head?_place, ends, stop]

omit alike in
theorem chainFrom_go {op : BinaryOp} (ends : skip s p = k) (found : s[k]?.bind op? = some op)
    (enough : s.length ≤ p + fuel) :
    chainFrom op? operand fuel left (place s p) = (do
      let (right, d) ← operand (place s (k + 1))
      let whole ← bounded k (.binary op left right)
      chainFrom op? operand (fuel - 1) whole d) := by
  cases fuel with
  | zero =>
    obtain ⟨c, here, -⟩ := Option.bind_eq_some_iff.mp found
    have := lt_length here
    have := le_skip s p
    omega
  | succ fuel =>
    simp only [chainFrom, skipBlanks_place, head?_place, ends, found, advance_place]
    rfl

theorem chainFrom_stop_twin {n m : Nat} (inside : p ≤ s.length)
    (stop : s[skip s p]?.bind op? = none) (enough : s.length ≤ p + n) (enough' : t.length ≤ p + m) :
    Twin s t q p (chainFrom op? operand n left (place s p))
      (chainFrom op? operand m left (place t p)) := by
  rw [chainFrom_stop rfl stop enough]
  refine .ok (le_skip s p) (skip_le_length inside) fun before => ?_
  rw [skip_skip] at before
  exact chainFrom_stop (skip_congr alike before) (by rw [← alike _ before, stop]) enough'

/-- Both have fuel for as many operators as there are characters. -/
theorem chainFrom_twin (operands : Twins s t q operand) (n m : Nat) (left : Formula) {p : Nat}
    (inside : p ≤ s.length) (enough : s.length ≤ p + n) (enough' : t.length ≤ p + m) :
    Twin s t q p (chainFrom op? operand n left (place s p))
      (chainFrom op? operand m left (place t p)) := by
  -- The texts may differ in length, and with that the fuels; an operator costs each of them one.
  induction n generalizing m left p with
  | zero =>
    have ends : s[skip s p]? = none := List.getElem?_eq_none (enough.trans (le_skip s p))
    exact chainFrom_stop_twin alike inside (by rw [ends]; rfl) enough enough'
  | succ n ih =>
    cases found : s[skip s p]?.bind op? with
    | none => exact chainFrom_stop_twin alike inside found enough enough'
    | some op =>
      obtain ⟨c, here, -⟩ := Option.bind_eq_some_iff.mp found
      have ahead := le_skip s p
      have further := lt_length here
      rw [chainFrom_go rfl found enough]
      refine .of_eq (fun before => chainFrom_go (skip_congr alike before)
        (by rw [← alike _ before, found]) enough') ?_
      refine .mono ?_ (show p ≤ skip s p + 1 by omega)
      refine (operands _ further).bind fun right p' _ later inside' => ?_
      exact .bind_bounded (by omega) (ih (m - 1) _ inside' (by omega) (by omega))

theorem chain_twin (operands : Twins s t q operand) : Twins s t q (chain op? operand) := by
  intro p inside
  refine (operands p inside).bind fun first p' _ _ inside' => ?_
  refine chainFrom_twin alike operands _ _ first inside' ?_ ?_
  · simp only [place, List.length_drop]
    omega
  · simp only [place, List.length_drop]
    omega

end chain

theorem expression_twin {factor : Step Formula} (factors : Twins s t q factor) :
    Twins s t q (expression factor) :=
  chain_twin alike (chain_twin alike factors)

/-! Leaves. -/

theorem number_twin : Twins s t q number := by
  intro p inside
  simp only [number, span_place, position_place]
  cases value : Number.ofLiteral? (run isNumberChar s p) with
  | none =>
    exact .fail (standsAt_run isNumberChar inside) rfl
  | some n =>
    refine .ok (Nat.le_add_right _ _) (run_length_le inside) fun before => ?_
    rw [run_congr alike ((le_skip _ _).trans_lt before), value]

theorem corner_twin : Twins s t q corner := by
  intro p inside
  simp only [corner, skipBlanks_place, span_place, position_place]
  have ahead := le_skip s p
  have insideStart := skip_le_length inside
  have insideLetters := run_length_le (P := Char.isUpper) insideStart
  have insideDigits := run_length_le (P := Char.isDigit) insideLetters
  -- A run is known to be one of `t` only where the character that ends it is before `q`.
  have alikeLetters (before : skip s p + (run Char.isUpper s (skip s p)).length < q) :
      skip t p = skip s p ∧ run Char.isUpper t (skip s p) = run Char.isUpper s (skip s p) :=
    ⟨skip_congr alike (by omega), run_congr alike before⟩
  split
  · rename_i noLetters
    refine .unexpected alike (Nat.le_add_right _ _) insideLetters fun before => ?_
    obtain ⟨start, letters⟩ := alikeLetters before
    rw [start, letters, if_pos noLetters]
    rfl
  · rename_i someLetters
    split
    · rename_i noDigits
      refine .unexpected alike (by omega) insideDigits fun before => ?_
      obtain ⟨start, letters⟩ := alikeLetters (by omega)
      rw [start, letters, if_neg someLetters, run_congr alike before, if_pos noDigits]
      rfl
    · rename_i someDigits
      cases named : addressOf (skip s p) (run Char.isUpper s (skip s p) ++
          run Char.isDigit s (skip s p + (run Char.isUpper s (skip s p)).length)) with
      | error e =>
        cases addressOf_eq_error named
        exact .fail (standsAt_runs Char.isUpper Char.isDigit insideStart) rfl
      | ok a =>
        refine .ok (by omega) insideDigits fun before => ?_
        have ends := (le_skip _ _).trans_lt before
        obtain ⟨start, letters⟩ := alikeLetters (by omega)
        rw [start, letters, if_neg someLetters, run_congr alike ends, if_neg someDigits, named]
        rfl

omit alike in
theorem corner_position {c d : Cursor} {position : Nat} {label : List Char} {a : Address}
    (h : corner c = .ok ((position, label, a), d)) : position = c.skipBlanks.position := by
  unfold corner at h
  simp only at h
  split at h
  · contradiction
  · split at h
    · contradiction
    · obtain ⟨b, -, h⟩ := bind_eq_ok.mp h
      cases h
      rfl

/-- What is read of the function of a range behind its corners. -/
def rangeEnd (r : Resolver) (op : Aggregate) (paren position : Nat) (label : List Char)
    (first last : Address) : Step Formula := fun c =>
  match c.eat? ')' with
  | none =>
    .error (if c.skipBlanks.rest = [] then .unmatchedParen paren else c.skipBlanks.unexpected)
  | some d =>
    match r.range first last with
    | none => .error (.unresolvedAddress position (String.ofList label))
    | some cells =>
      match Formula.range? op cells with
      | none => .error .emptyRange
      | some f => .ok (f, d)

omit alike in
theorem rangeCall_eq (op : Aggregate) (paren : Nat) (c : Cursor) : rangeCall r op paren c = (do
    let ((position, firstLabel, first), d) ← corner c
    match d.eat? ':' with
    | none => rangeEnd r op paren position firstLabel first first d
    | some d => do
      let ((_, lastLabel, last), e) ← corner d
      rangeEnd r op paren position (firstLabel ++ ':' :: lastLabel) first last e) := by
  rfl

theorem rangeEnd_twin {op : Aggregate} {paren position : Nat} {label : List Char}
    {first last : Address} (opened : s[paren]? = some '(') (position_le : position ≤ s.length) :
    Twins s t q (rangeEnd r op paren position label first last) := by
  intro p inside
  have insideNext := skip_le_length inside
  unfold rangeEnd
  rw [eat?_place]
  refine .of_eq (fun before => by rw [eat?_congr alike ')' before]) ?_
  by_cases closed : s[skip s p]? = some ')'
  · simp only [if_pos closed]
    have := lt_length closed
    have ahead := le_skip s p
    split
    · exact .fail position_le rfl
    · split
      · exact .fail trivial rfl
      · exact .ok (by omega) (by omega) fun _ => rfl
  · simp only [if_neg closed, skipBlanks_place]
    cases here : s[skip s p]? with
    | none =>
      rw [if_pos (rest_of_none here)]
      exact .fail opened rfl
    | some c =>
      rw [if_neg (by simp [rest_of_some here])]
      refine .unexpected alike (le_refl _) insideNext fun before => ?_
      rw [skip_congr alike before, if_neg]
      simp [rest_of_some ((alike _ before).symm.trans here)]

theorem rangeCall_twin {op : Aggregate} {paren : Nat} (opened : s[paren]? = some '(') :
    Twins s t q (rangeCall r op paren) := by
  intro p inside
  rw [rangeCall_eq, rangeCall_eq]
  refine (corner_twin alike p inside).bind fun ⟨position, firstLabel, first⟩ p' read _ inside' => ?_
  have position_le : position ≤ s.length := by
    rw [corner_position read, skipBlanks_place]
    exact skip_le_length inside
  dsimp only
  rw [eat?_place]
  refine .of_eq (fun before => by rw [eat?_congr alike ':' before]) ?_
  by_cases colon : s[skip s p']? = some ':'
  · simp only [if_pos colon]
    refine .mono ?_ ((le_skip s p').trans (Nat.le_succ _))
    refine (corner_twin alike _ (lt_length colon)).bind ?_
    intro ⟨_, lastLabel, last⟩ p'' _ _ inside''
    exact rangeEnd_twin alike opened position_le p'' inside''
  · simp only [if_neg colon]
    exact rangeEnd_twin alike opened position_le p' inside'

theorem named_twin : Twins s t q (named r) := by
  intro p inside
  simp only [named, span_place, position_place]
  have insideName := run_length_le (P := Char.isUpper) inside
  have insideDigits := run_length_le (P := Char.isDigit) insideName
  have alikeName (before : p + (run Char.isUpper s p).length < q) :
      run Char.isUpper t p = run Char.isUpper s p := run_congr alike before
  by_cases digits : run Char.isDigit s (p + (run Char.isUpper s p).length) ≠ []
  · rw [if_pos digits]
    cases address : addressOf p (run Char.isUpper s p ++
        run Char.isDigit s (p + (run Char.isUpper s p).length)) with
    | error e =>
      cases addressOf_eq_error address
      exact .fail (standsAt_runs Char.isUpper Char.isDigit inside) rfl
    | ok a =>
      rw [ok_bind]
      cases resolved : r.cell a with
      | none => exact .fail inside rfl
      | some cell =>
        refine .ok (by omega) insideDigits fun before => ?_
        have ends := (le_skip _ _).trans_lt before
        rw [alikeName (by omega), run_congr alike ends, if_pos digits, address, ok_bind, resolved]
        rfl
  · rw [if_neg digits, eat?_place]
    by_cases opened : s[skip s (p + (run Char.isUpper s p).length)]? = some '('
    · rw [if_pos opened]
      dsimp only
      cases known : Aggregate.ofName? (String.ofList (run Char.isUpper s p)) with
      | none =>
        exact .fail (standsAt_run Char.isUpper inside) rfl
      | some op =>
        have ahead := le_skip s (p + (run Char.isUpper s p).length)
        refine .mono (.of_eq (fun before => ?_) (rangeCall_twin alike opened _ (lt_length opened)))
          (by omega)
        have ends := (le_skip _ _).trans_lt before
        have noDigits : run Char.isDigit t (p + (run Char.isUpper s p).length) = [] := by
          rw [← not_not.mp digits]
          exact run_congr alike (by rw [not_not.mp digits, List.length_nil]; omega)
        rw [alikeName (by omega), noDigits, if_neg (not_not.mpr rfl),
          eat?_congr alike '(' (by omega), if_pos opened]
        simp only [known]
        rfl
    · rw [if_neg opened]
      exact .fail (standsAt_run Char.isUpper inside) rfl

/-! Compounds. -/

/-- Where a token is due, so that `p` holds no blank. -/
theorem primary_twin {factor : Step Formula} (factors : Twins s t q factor) (inside : p ≤ s.length)
    (due : skip s p = p) :
    Twin s t q p (primary r factor (place s p)) (primary r factor (place t p)) := by
  unfold primary
  cases here : s[p]? with
  | none =>
    rw [rest_of_none here]
    refine .unexpected alike due.le inside fun before => ?_
    rw [rest_of_none ((alike p before).symm.trans here)]
  | some ch =>
    rw [rest_of_some here]
    refine .of_eq (fun before => by rw [rest_of_some ((alike p (due ▸ before)).symm.trans here)]) ?_
    simp only [advance_place, position_place]
    split
    · rename_i paren
      refine .mono ?_ (Nat.le_succ p)
      refine (expression_twin alike factors _ (lt_length here)).bind fun inner p' _ _ inside' => ?_
      dsimp only
      rw [eat?_place]
      refine .of_eq (fun before => by rw [eat?_congr alike ')' before]) ?_
      by_cases closed : s[skip s p']? = some ')'
      · simp only [if_pos closed]
        exact .ok ((le_skip s p').trans (Nat.le_succ _)) (lt_length closed) fun _ => rfl
      · simp only [if_neg closed]
        exact .fail (here.trans (congrArg some paren)) rfl
    · split
      · exact number_twin alike p inside
      · split
        · exact named_twin alike p inside
        · exact .unexpected alike due.le inside fun _ => rfl

theorem factor_twin (room : Nat) : Twins s t q (factor r room) := by
  induction room with
  | zero =>
    intro p inside
    simp only [factor, skipBlanks_place]
    exact .fail (skip_le_length inside) rfl
  | succ room ih =>
    intro p inside
    have ahead := le_skip s p
    have insideNext := skip_le_length inside
    simp only [factor, skipBlanks_place, head?_place, advance_place, position_place]
    refine .of_eq (fun before => by rw [skip_congr alike before, ← alike _ before]) ?_
    split
    · rename_i plus
      exact .mono (ih _ (lt_length plus)) (by omega)
    · split
      · rename_i minus
        refine .mono ?_ (show p ≤ skip s p + 1 by omega)
        refine (ih _ (lt_length minus)).bind fun operand p' _ later inside' => ?_
        exact .bind_bounded insideNext (.ok (le_refl _) inside' fun _ => rfl)
      · refine .mono ?_ ahead
        refine (primary_twin alike ih insideNext (skip_skip s p)).bind ?_
        intro base p' _ later inside'
        dsimp only
        rw [eat?_place]
        refine .of_eq (fun before => by rw [eat?_congr alike '^' before]) ?_
        by_cases power : s[skip s p']? = some '^'
        · simp only [if_pos power]
          refine .mono ?_ ((le_skip s p').trans (Nat.le_succ _))
          refine (ih _ (lt_length power)).bind fun exponent p'' _ _ inside'' => ?_
          exact .bind_bounded insideNext (.ok (le_refl _) inside'' fun _ => rfl)
        · simp only [if_neg power]
          exact .ok (le_refl _) inside' fun _ => rfl

end alike

end Parser

namespace Formula
open Spreadsheet.Parser

variable {r : Resolver} {e : ParseError} {f : Formula}

theorem parse_of_error (stopped : expression (factor r nestingLimit) (place s 0) = .error e) :
    parse r s = .error e := by
  show (expression (factor r nestingLimit) (place s 0) >>= _) = _
  rw [stopped]
  rfl

theorem parse_of_ok (read : expression (factor r nestingLimit) (place s 0) = .ok (f, place s p)) :
    parse r s =
      (s[skip s p]?).elim (.ok f) fun found => .error (.trailingInput (skip s p) found) := by
  show (expression (factor r nestingLimit) (place s 0) >>= _) = _
  rw [read, ok_bind]
  dsimp only
  rw [skipBlanks_place]
  cases here : s[skip s p]? with
  | none => rw [rest_of_none here]; rfl
  | some found => rw [rest_of_some here]; rfl

/-- A text that begins like `s`, up to the refused character, is refused in the same way. -/
theorem parse_error_twin (alike : ∀ i < q, s[i]? = t[i]?) (failed : parse r s = .error e) :
    e.IsTrueOf s ∧ ∀ i, e.refusedAt? = some i → i < q → parse r t = .error e := by
  have twin := expression_twin alike (factor_twin (r := r) alike nestingLimit) 0 (Nat.zero_le _)
  cases read : expression (factor r nestingLimit) (place s 0) with
  | error d =>
    cases (parse_of_error read).symm.trans failed
    rw [read] at twin
    cases twin with
    | error holds same =>
      exact ⟨holds, fun i refused before => parse_of_error ((same i refused).2 before)⟩
  | ok result =>
    obtain ⟨f, c⟩ := result
    rw [read] at twin
    cases twin with
    | @ok _ p' _ _ _ same =>
      have ended := (parse_of_ok read).symm.trans failed
      cases here : s[skip s p']? with
      | none =>
        rw [here] at ended
        cases ended
      | some found =>
        rw [here] at ended
        cases ended
        refine ⟨here, fun i refused before => ?_⟩
        cases refused
        rw [parse_of_ok (same before), skip_congr alike before, ← alike _ before, here]
        rfl

/-- What has been read up to an unexpected character cannot be the beginning of a formula. -/
theorem parse_error_true (failed : parse r s = .error e) :
    e.IsTrueOf s ∧ (∀ p, e.position? = some p → p ≤ s.length) ∧
      ∀ p found, e = .unexpectedCharacter p found ∨ e = .trailingInput p found →
        ∀ t : List Char, t.take (p + 1) = s.take (p + 1) → parse r t = .error e := by
  have holds : e.IsTrueOf s := (parse_error_twin (q := 0) (t := s) (fun _ _ => rfl) failed).1
  refine ⟨holds, fun p => holds.position_le, fun p found is t front => ?_⟩
  have alike : ∀ i < p + 1, s[i]? = t[i]? := fun i before => by
    have same := congrArg (·[i]?) front
    simpa [List.getElem?_take, before] using same.symm
  have refused : e.refusedAt? = some p := by rcases is with rfl | rfl <;> rfl
  exact (parse_error_twin alike failed).2 p refused (Nat.lt_succ_self p)

/-- A function takes one range and nothing behind it. -/
theorem parse_error_true_sample :
    parse .none "SUM(A1:B2 + 1)".toList = .error (.unexpectedCharacter 10 '+') ∧
      ∀ t, parse .none ("SUM(A1:B2 +".toList ++ t) = .error (.unexpectedCharacter 10 '+') := by
  have failed : parse .none "SUM(A1:B2 + 1)".toList = .error (.unexpectedCharacter 10 '+') := by
    decide +kernel
  exact ⟨failed, fun t => (parse_error_true failed).2.2 10 '+' (.inl rfl) _ rfl⟩

end Formula
end Spreadsheet
