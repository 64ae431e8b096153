import Spreadsheet.Proofs.Except
import Spreadsheet.Proofs.Grammar

/-! What the parser reads is derived by the grammar. -/
namespace Spreadsheet

namespace Cursor
open Grammar

variable {c d : Cursor}

theorem rest_eq_span (p : Char → Bool) (c : Cursor) :
    c.rest = (c.span p).1 ++ (c.span p).2.rest ∧ ∀ x ∈ (c.span p).1, p x :=
  ⟨List.takeWhile_append_dropWhile.symm, fun _ member => List.mem_takeWhile_imp member⟩

theorem exists_rest_eq_skipBlanks (c : Cursor) :
    ∃ blanks, Blank blanks ∧ c.rest = blanks ++ c.skipBlanks.rest :=
  have ⟨split, blank⟩ := c.rest_eq_span Text.isBlank
  ⟨_, blank, split⟩

/-- Where a character comes next but for blanks. -/
theorem exists_token {ch : Char} (h : c.skipBlanks.rest.head? = some ch) :
    ∃ t, Token [ch] t ∧ c.rest = t ++ c.skipBlanks.advance.rest := by
  obtain ⟨blanks, blank, split⟩ := c.exists_rest_eq_skipBlanks
  refine ⟨blanks ++ [ch], ⟨blanks, blank, rfl⟩, ?_⟩
  rw [split, List.append_assoc, ← List.cons_head?_tail h]
  rfl

theorem exists_token_of_eat? {ch : Char} (h : c.eat? ch = some d) :
    ∃ t, Token [ch] t ∧ c.rest = t ++ d.rest := by
  unfold eat? at h
  simp only at h
  split at h
  · rename_i next
    cases h
    exact exists_token next
  · cases h

end Cursor

namespace Parser
open Grammar

variable {r : Resolver}

theorem bounded_eq_ok {position : Nat} {f g : Formula} :
    bounded position f = .ok g ↔ f.depth ≤ depthLimit ∧ f = g := by
  unfold bounded
  split <;> simp_all

/-- The text between two places stands in a relation to what was read there, but for blanks
behind it. -/
def Spans {α : Type} (P : List Char → α → Prop) (c : Cursor) (a : α) (d : Cursor) : Prop :=
  ∃ s blanks, Blank blanks ∧ c.rest = s ++ (blanks ++ d.rest) ∧ P s a

def Takes {α : Type} (P : List Char → α → Prop) (step : Step α) : Prop :=
  ∀ c a d, step c = .ok (a, d) → Spans P c a d

theorem Spans.of_eq {α : Type} {P : List Char → α → Prop} {c d : Cursor} {a : α} {s : List Char}
    (split : c.rest = s ++ d.rest) (h : P s a) : Spans P c a d :=
  ⟨s, [], by simp [Blank], split, h⟩

/-- A text of the symbol with no more factors inside one another than there is room for, and a
tree that is not too deep. -/
def Within (r : Resolver) (symbol : Symbol) (room : Nat) (s : List Char) (f : Formula) : Prop :=
  f.depth ≤ depthLimit ∧ ∃ n ≤ room, Derives r symbol s f n

/-! Chains. -/

section chain
variable {op? : Char → Option BinaryOp} {operand : Step Formula} {P Q : List Char → Formula → Prop}

/-- What has been read so far is `left`, from `s`. -/
theorem chainFrom_takes (operands : Takes Q operand)
    (joined : ∀ ch op s t u left right, op? ch = some op → P s left → Token [ch] t → Q u right →
      (Formula.binary op left right).depth ≤ depthLimit → P (s ++ t ++ u) (.binary op left right))
    (fuel : Nat) {s blanks : List Char} {left f : Formula} {c d : Cursor} (start : P s left)
    (blank : Blank blanks) (h : chainFrom op? operand fuel left c = .ok (f, d)) :
    ∃ t behind, Blank behind ∧ blanks ++ c.rest = t ++ (behind ++ d.rest) ∧ P (s ++ t) f := by
  induction fuel generalizing s blanks left c with
  | zero =>
    cases h
    exact ⟨[], blanks, blank, rfl, by rwa [List.append_nil]⟩
  | succ fuel ih =>
    unfold chainFrom at h
    simp only at h
    split at h
    · cases h
      obtain ⟨more, moreBlank, split⟩ := c.exists_rest_eq_skipBlanks
      refine ⟨[], blanks ++ more, blank.append moreBlank, ?_, by rwa [List.append_nil]⟩
      rw [split, List.nil_append, List.append_assoc]
    · rename_i op found
      obtain ⟨ch, next, isOp⟩ := Option.bind_eq_some_iff.mp found
      obtain ⟨t, token, split⟩ := Cursor.exists_token next
      obtain ⟨⟨right, e⟩, read, h⟩ := bind_eq_ok.mp h
      obtain ⟨whole, fits, h⟩ := bind_eq_ok.mp h
      obtain ⟨shallow, rfl⟩ := bounded_eq_ok.mp fits
      obtain ⟨u, blanks', blank', split', tree⟩ := operands _ _ _ read
      have start' := joined ch op s (blanks ++ t) u left right isOp start (token.blank blank) tree shallow
      obtain ⟨v, behind, blankBehind, split'', result⟩ := ih start' blank' h
      refine ⟨blanks ++ t ++ u ++ v, behind, blankBehind, ?_, ?_⟩
      · rw [split, split', split'']
        simp only [List.append_assoc]
      · simpa only [List.append_assoc] using result

theorem chain_takes (operands : Takes Q operand) (first : ∀ s f, Q s f → P s f)
    (joined : ∀ ch op s t u left right, op? ch = some op → P s left → Token [ch] t → Q u right →
      (Formula.binary op left right).depth ≤ depthLimit → P (s ++ t ++ u) (.binary op left right)) :
    Takes P (chain op? operand) := by
  intro c f d h
  obtain ⟨⟨left, e⟩, read, h⟩ := bind_eq_ok.mp h
  obtain ⟨s, blanks, blank, split, tree⟩ := operands _ _ _ read
  obtain ⟨t, behind, blankBehind, split', result⟩ :=
    chainFrom_takes operands joined _ (first s left tree) blank h
  exact ⟨s ++ t, behind, blankBehind, by rw [split, split', List.append_assoc], result⟩

end chain

theorem expression_takes {factor : Step Formula} {room : Nat}
    (factors : Takes (Within r .factor room) factor) :
    Takes (Within r .expression room) (expression factor) := by
  refine chain_takes (Q := Within r .term room) (chain_takes factors ?_ ?_) ?_ ?_
  · rintro s f ⟨shallow, n, fits, derived⟩
    exact ⟨shallow, n, fits, .factor derived⟩
  · rintro ch op s t u left right isOp ⟨-, m, fitsLeft, hl⟩ token ⟨-, n, fitsRight, hr⟩ shallow
    have product : (op = .mul ∨ op = .div) ∧ ch = op.symbol := by
      unfold multiplicative? at isOp
      split at isOp <;> cases isOp <;> decide
    exact ⟨shallow, max m n, max_le fitsLeft fitsRight, .product product.1 hl (product.2 ▸ token) hr⟩
  · rintro s f ⟨shallow, n, fits, derived⟩
    exact ⟨shallow, n, fits, .term derived⟩
  · rintro ch op s t u left right isOp ⟨-, m, fitsLeft, hl⟩ token ⟨-, n, fitsRight, hr⟩ shallow
    have sum : (op = .add ∨ op = .sub) ∧ ch = op.symbol := by
      unfold additive? at isOp
      split at isOp <;> cases isOp <;> decide
    exact ⟨shallow, max m n, max_le fitsLeft fitsRight, .sum sum.1 hl (sum.2 ▸ token) hr⟩

/-! Leaves. -/

/-- A tree without operands, at no cost of room. -/
def Leaf (r : Resolver) (s : List Char) (f : Formula) : Prop :=
  f.depth = 1 ∧ Derives r .primary s f 0

theorem Leaf.within {s : List Char} {f : Formula} (h : Leaf r s f) (room : Nat) :
    Within r .primary room s f :=
  ⟨by rw [h.1]; decide, 0, Nat.zero_le room, h.2⟩

theorem isNumberChar_iff {c : Char} : isNumberChar c ↔ c.isDigit ∨ c = '.' := by
  simp [isNumberChar]

theorem number_takes : Takes (Leaf r) number := by
  intro c f d h
  obtain ⟨split, all⟩ := c.rest_eq_span isNumberChar
  unfold number at h
  simp only at h
  split at h
  · rename_i n value
    cases h
    refine .of_eq split ⟨rfl, .number ⟨_, .self _, ?_, ?_, value⟩⟩
    · intro empty
      rw [empty] at value
      cases value
    · exact fun x member => isNumberChar_iff.mp (all x member)
  · contradiction

theorem addressOf_eq_ok {position : Nat} {label : List Char} {a : Address} :
    addressOf position label = .ok a ↔ Address.ofChars? label = some a := by
  unfold addressOf
  split <;> simp_all

theorem corner_takes : Takes (fun s corner => Label s corner.2.2) corner := by
  intro c a d h
  unfold corner at h
  simp only at h
  obtain ⟨blanks, blank, split⟩ := c.exists_rest_eq_skipBlanks
  obtain ⟨splitLetters, upper⟩ := c.skipBlanks.rest_eq_span Char.isUpper
  obtain ⟨splitDigits, digit⟩ := (c.skipBlanks.span Char.isUpper).2.rest_eq_span Char.isDigit
  split at h
  · contradiction
  · rename_i someLetters
    split at h
    · contradiction
    · rename_i someDigits
      obtain ⟨address, named, h⟩ := bind_eq_ok.mp h
      cases h
      refine .of_eq ?_ ⟨_, _, ⟨blanks, blank, rfl⟩, ⟨someLetters, upper⟩, ⟨someDigits, digit⟩,
        addressOf_eq_ok.mp named⟩
      rw [split, splitLetters, splitDigits]
      simp only [List.append_assoc]

/-- The corners of a range and the parenthesis that closes it. -/
def Call (r : Resolver) (op : Aggregate) (s : List Char) (f : Formula) : Prop :=
  ∃ t u a b first rest, s = t ++ u ∧ Corners t a b ∧ Token [')'] u ∧
    r.range a b = some (first :: rest) ∧ f = .range op first rest

theorem rangeCall_takes {op : Aggregate} {paren : Nat} : Takes (Call r op) (rangeCall r op paren) := by
  intro c f d h
  unfold rangeCall at h
  obtain ⟨⟨⟨position, firstLabel, a⟩, e⟩, readFirst, h⟩ := bind_eq_ok.mp h
  obtain ⟨s, blanks, blank, splitFirst, label⟩ := corner_takes _ _ _ readFirst
  simp only at h
  split at h
  on_goal 1 =>
    have corners : Spans (fun t ends => Corners t a ends) c a e :=
      ⟨s, blanks, blank, splitFirst, .single label⟩
  on_goal 2 =>
    rename_i colon
    obtain ⟨t, token, splitColon⟩ := Cursor.exists_token_of_eat? colon
    obtain ⟨⟨⟨_, lastLabel, b⟩, e'⟩, readLast, h⟩ := bind_eq_ok.mp h
    obtain ⟨u, blanks', blank', splitLast, label'⟩ := corner_takes _ _ _ readLast
    have corners : Spans (fun t ends => Corners t a ends) c b e' := by
      refine ⟨_, blanks', blank', ?_, .pair label (token.blank blank) label'⟩
      rw [splitFirst, splitColon, splitLast]
      simp only [List.append_assoc]
  all_goals
    obtain ⟨t, behind, blankBehind, front, corners⟩ := corners
    simp only [pure_bind] at h
    split at h
    · contradiction
    · rename_i closed
      obtain ⟨u, token, split⟩ := Cursor.exists_token_of_eat? closed
      split at h
      · contradiction
      · rename_i cells resolved
        cases cells with
        | nil => contradiction
        | cons first rest =>
          cases h
          refine .of_eq ?_ ⟨t, behind ++ u, a, _, first, rest, rfl, corners,
            token.blank blankBehind, resolved, rfl⟩
          rw [front, split]
          simp only [List.append_assoc]

theorem named_spans {c d : Cursor} {f : Formula} {ch : Char} {s : List Char}
    (front : c.rest = ch :: s) (upper : ch.isUpper) (h : named r c = .ok (f, d)) :
    Spans (Leaf r) c f d := by
  obtain ⟨splitLetters, allUpper⟩ := c.rest_eq_span Char.isUpper
  obtain ⟨splitDigits, allDigits⟩ := (c.span Char.isUpper).2.rest_eq_span Char.isDigit
  unfold named at h
  simp only at h
  split at h
  · rename_i someDigits
    obtain ⟨a, address, h⟩ := bind_eq_ok.mp h
    split at h
    · contradiction
    · rename_i cell resolved
      cases h
      have someLetters : (c.span Char.isUpper).1 ≠ [] := by
        simp [Cursor.span, front, upper]
      refine .of_eq ?_ ⟨rfl, .reference ⟨_, _, .self _, ⟨someLetters, allUpper⟩,
        ⟨someDigits, allDigits⟩, addressOf_eq_ok.mp address⟩ resolved⟩
      rw [splitLetters, splitDigits, List.append_assoc]
  · rename_i noDigits
    split at h
    · contradiction
    · rename_i opened
      obtain ⟨t, token, splitParen⟩ := Cursor.exists_token_of_eat? opened
      split at h
      · contradiction
      · rename_i op known
        obtain ⟨_, blanks, blank, splitCall, u, v, a, b, first, rest, rfl, corners, closing, resolved,
          rfl⟩ := rangeCall_takes _ _ _ h
        have name : op.name.toList = (c.span Char.isUpper).1 := by
          have same := List.find?_some known
          rw [beq_iff_eq] at same
          rw [same, String.toList_ofList]
        refine ⟨_, blanks, blank, ?_, rfl, .range (.self _) token corners closing resolved⟩
        rw [splitLetters, ← name, splitParen, splitCall]
        simp only [List.append_assoc]

/-! Compounds. -/

theorem primary_takes {factor : Step Formula} {room : Nat}
    (factors : Takes (Within r .factor room) factor) :
    Takes (Within r .primary room) (primary r factor) := by
  intro c f d h
  unfold primary at h
  split at h
  · contradiction
  · rename_i ch s front
    split at h
    · rename_i isParen
      obtain ⟨⟨inner, e⟩, read, h⟩ := bind_eq_ok.mp h
      simp only at h
      split at h
      · contradiction
      · rename_i closed
        cases h
        obtain ⟨t, blanks, blank, split, shallow, n, fits, derived⟩ :=
          expression_takes factors _ _ _ read
        obtain ⟨u, token, split'⟩ := Cursor.exists_token_of_eat? closed
        refine .of_eq ?_ ⟨shallow, n, fits, .parens (.self _) derived (token.blank blank)⟩
        have split : s = t ++ (blanks ++ e.rest) := by simpa [Cursor.advance, front] using split
        rw [front, isParen, split, split']
        simp only [List.append_assoc, List.singleton_append]
        rfl
    · split at h
      · obtain ⟨s, blanks, blank, split, leaf⟩ := number_takes _ _ _ h
        exact ⟨s, blanks, blank, split, leaf.within room⟩
      · split at h
        · rename_i upper
          obtain ⟨s, blanks, blank, split, leaf⟩ := named_spans front upper h
          exact ⟨s, blanks, blank, split, leaf.within room⟩
        · contradiction

theorem factor_takes (room : Nat) : Takes (Within r .factor room) (factor r room) := by
  induction room with
  | zero =>
    intro c f d h
    contradiction
  | succ room ih =>
    intro c f d h
    unfold factor at h
    simp only at h
    split at h
    · rename_i plus
      obtain ⟨s, token, split⟩ := Cursor.exists_token plus
      obtain ⟨t, blanks, blank, split', shallow, n, fits, derived⟩ := ih _ _ _ h
      refine ⟨s ++ t, blanks, blank, ?_, shallow, n + 1, by omega, .plus token derived⟩
      rw [split, split', List.append_assoc]
    · split at h
      · rename_i minus
        obtain ⟨s, token, split⟩ := Cursor.exists_token minus
        obtain ⟨⟨operand, e⟩, read, h⟩ := bind_eq_ok.mp h
        obtain ⟨whole, fits, h⟩ := bind_eq_ok.mp h
        obtain ⟨shallow, rfl⟩ := bounded_eq_ok.mp fits
        cases h
        obtain ⟨t, blanks, blank, split', -, n, fits, derived⟩ := ih _ _ _ read
        refine ⟨s ++ t, blanks, blank, ?_, shallow, n + 1, by omega, .minus token derived⟩
        rw [split, split', List.append_assoc]
      · obtain ⟨front, blankFront, split⟩ := c.exists_rest_eq_skipBlanks
        obtain ⟨⟨base, e⟩, read, h⟩ := bind_eq_ok.mp h
        obtain ⟨s, blanks, blank, split', shallowBase, m, fitsBase, derivedBase⟩ :=
          primary_takes ih _ _ _ read
        simp only at h
        split at h
        · cases h
          refine ⟨front ++ s, blanks, blank, ?_, shallowBase, m + 1, by omega,
            .primary (derivedBase.blank blankFront)⟩
          rw [split, split', List.append_assoc]
        · rename_i power
          obtain ⟨t, token, splitPower⟩ := Cursor.exists_token_of_eat? power
          obtain ⟨⟨exponent, c⟩, readExponent, h⟩ := bind_eq_ok.mp h
          obtain ⟨whole, fits, h⟩ := bind_eq_ok.mp h
          obtain ⟨shallow, rfl⟩ := bounded_eq_ok.mp fits
          cases h
          obtain ⟨u, behind, blankBehind, splitExponent, -, n, fitsExponent, derivedExponent⟩ :=
            ih _ _ _ readExponent
          refine ⟨front ++ s ++ (blanks ++ t) ++ u, behind, blankBehind, ?_, shallow, max m n + 1,
            by omega, .power (derivedBase.blank blankFront) (token.blank blank) derivedExponent⟩
          rw [split, split', splitPower, splitExponent]
          simp only [List.append_assoc]

end Parser

namespace Formula

/-- Reads with a limit of its own on the factors that are open at once. -/
def parseWithin (r : Resolver) (room : Nat) (s : List Char) : Except ParseError Formula := do
  let (f, c) ← Parser.expression (Parser.factor r room) (.start s)
  match c.skipBlanks.rest with
  | [] => return f
  | found :: _ => throw (.trailingInput c.skipBlanks.position found)

variable {r : Resolver} {s : List Char} {f : Formula}

theorem parse_eq_parseWithin : parse r s = parseWithin r Parser.nestingLimit s := rfl

/-- What is read is derived, with blanks behind it. -/
theorem derives_of_parseWithin {room : Nat} (h : parseWithin r room s = .ok f) :
    ∃ body blanks, s = body ++ blanks ∧ Grammar.Blank blanks ∧
      Parser.Within r .expression room body f := by
  obtain ⟨⟨g, c⟩, read, h⟩ := bind_eq_ok.mp h
  obtain ⟨body, blanks, blank, split, within⟩ :=
    Parser.expression_takes (Parser.factor_takes _) _ _ _ read
  simp only at h
  split at h
  · rename_i ends
    cases h
    obtain ⟨more, moreBlank, split'⟩ := c.exists_rest_eq_skipBlanks
    rw [ends, List.append_nil] at split'
    exact ⟨body, blanks ++ more, split'.symm ▸ split, blank.append moreBlank, within⟩
  · contradiction

theorem derives_of_parse (h : parse r s = .ok f) : ∃ body blanks, s = body ++ blanks ∧
    Grammar.Blank blanks ∧ Parser.Within r .expression Parser.nestingLimit body f :=
  derives_of_parseWithin (parse_eq_parseWithin.symm.trans h)

end Formula
end Spreadsheet
