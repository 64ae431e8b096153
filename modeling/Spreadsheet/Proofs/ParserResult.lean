import Spreadsheet.Formula.Rendering
import Spreadsheet.Proofs.GrammarSoundness
import Spreadsheet.Proofs.Literal

/-! What reading a formula can give: a tree within the limits whose leaves are literals and
what the resolver made of addresses. -/
namespace Spreadsheet

namespace Formula

/-- The parts that have no operands, from left to right. -/
def leaves : Formula → List Formula
  | negate operand => operand.leaves
  | binary _ left right => left.leaves ++ right.leaves
  | leaf => [leaf]

/-- How many factors are open at once while the text of the formula is read. Parentheses open
one, and so do a sign and an exponent. -/
def nesting : Formula → Nat
  | negate operand => operand.nesting + (if operand.precedence < 3 then 1 else 0) + 1
  | binary op left right =>
    max (left.nesting + if left.precedence < leftBound op then 1 else 0)
      (right.nesting + (if right.precedence < rightBound op then 1 else 0) +
        if op = .pow then 1 else 0)
  | _ => 1

/-- As an operand, in parentheses if it binds looser than `bound`. -/
def nestingWithin (bound : Nat) (f : Formula) : Nat :=
  f.nesting + if f.precedence < bound then 1 else 0

theorem nestingWithin_of_le {bound : Nat} {f : Formula} (h : bound ≤ f.precedence) :
    f.nestingWithin bound = f.nesting := by
  unfold nestingWithin
  rw [if_neg (by omega), Nat.add_zero]

theorem nestingWithin_of_lt {bound : Nat} {f : Formula} (h : f.precedence < bound) :
    f.nestingWithin bound = f.nesting + 1 := by
  unfold nestingWithin
  rw [if_pos h]

theorem nestingWithin_le (bound : Nat) (f : Formula) : f.nestingWithin bound ≤ f.nesting + 1 := by
  unfold nestingWithin
  split <;> omega

theorem nesting_le_nestingWithin (bound : Nat) (f : Formula) :
    f.nesting ≤ f.nestingWithin bound := Nat.le_add_right _ _

theorem nestingWithin_mono {low high : Nat} (h : low ≤ high) (f : Formula) :
    f.nestingWithin low ≤ f.nestingWithin high := by
  unfold nestingWithin
  split <;> split <;> omega

theorem nesting_negate (f : Formula) : (negate f).nesting = f.nestingWithin 3 + 1 := rfl

theorem nesting_power (base exponent : Formula) : (binary .pow base exponent).nesting =
    max (base.nestingWithin 5) (exponent.nestingWithin 3 + 1) := rfl

theorem nesting_chain {op : BinaryOp} (notPower : op ≠ .pow) (left right : Formula) :
    (binary op left right).nesting =
      max (left.nestingWithin (leftBound op)) (right.nestingWithin (rightBound op)) := by
  simp only [nesting, if_neg notPower]
  rfl

/-- What a number, an address or a range in a text can become. -/
def IsLeafOf (r : Resolver) : Formula → Prop
  | number n => Number.IsLiteral n
  | reference cell => ∃ a, r.cell a = some cell
  | range _ first rest => ∃ a b, r.range a b = some (first :: rest)
  | _ => False

/-- Not too deep, and with the right leaves. -/
structure IsTreeOf (r : Resolver) (f : Formula) : Prop where
  depth_le : f.depth ≤ Parser.depthLimit
  leaves : ∀ leaf ∈ f.leaves, leaf.IsLeafOf r

end Formula

namespace Grammar
open Formula

variable {r : Resolver} {symbol : Symbol} {s : List Char} {f : Formula} {n : Nat}

/-- The loosest precedence that the symbol derives without parentheses. -/
def Symbol.level : Symbol → Nat
  | expression => 1
  | term => 2
  | factor => 3
  | primary => 5

theorem Derives.leaves (h : Derives r symbol s f n) : ∀ leaf ∈ f.leaves, leaf.IsLeafOf r := by
  induction h with
  | number numeral =>
    obtain ⟨literal, -, -, -, value⟩ := numeral
    simpa [Formula.leaves, IsLeafOf] using ⟨literal, value⟩
  | reference _ resolved => simpa [Formula.leaves, IsLeafOf] using ⟨_, resolved⟩
  | range _ _ _ _ resolved => simpa [Formula.leaves, IsLeafOf] using ⟨_, _, resolved⟩
  | sum _ _ _ _ ihl ihr => exact fun leaf member => (List.mem_append.mp member).elim (ihl leaf) (ihr leaf)
  | product _ _ _ _ ihl ihr =>
    exact fun leaf member => (List.mem_append.mp member).elim (ihl leaf) (ihr leaf)
  | power _ _ _ ihl ihr => exact fun leaf member => (List.mem_append.mp member).elim (ihl leaf) (ihr leaf)
  | minus _ _ ih => exact ih
  | term _ ih | factor _ ih | plus _ _ ih | primary _ ih | parens _ _ _ ih => exact ih

/-- The text had room for the factors that writing the tree opens. A primary is inside the factor
that it makes. -/
theorem Derives.nestingWithin_le (h : Derives r symbol s f n) :
    f.nestingWithin symbol.level ≤ if symbol = .primary then n + 1 else n := by
  induction h with
  | term _ ih | factor _ ih => exact (nestingWithin_mono (by decide) _).trans ih
  | @sum op _ _ _ _ _ _ _ isSum _ _ _ ihl ihr =>
    rcases isSum with rfl | rfl
    all_goals
      rw [nestingWithin_of_le (Nat.le_refl 1), nesting_chain (by decide)]
      exact max_le_max ihl ihr
  | @product op _ _ _ _ _ _ _ isProduct _ _ _ ihl ihr =>
    rcases isProduct with rfl | rfl
    all_goals
      rw [nestingWithin_of_le (Nat.le_refl 2), nesting_chain (by decide)]
      exact max_le_max ihl ihr
  | plus _ _ ih => exact ih.trans (Nat.le_succ _)
  | minus _ _ ih =>
    rw [nestingWithin_of_le (Nat.le_refl 3), nesting_negate]
    exact Nat.add_le_add_right ih 1
  | primary _ ih => exact (nestingWithin_mono (by decide) _).trans ih
  | power _ _ _ ihl ihr =>
    rw [nestingWithin_of_le (show 3 ≤ 4 by decide), nesting_power]
    exact (max_le_max ihl (Nat.add_le_add_right ihr 1)).trans (Nat.succ_max_succ _ _).le
  | number | reference | range => exact Nat.le_refl 1
  | parens _ _ _ ih =>
    have inner := (nesting_le_nestingWithin 1 _).trans ih
    exact (Formula.nestingWithin_le 5 _).trans (Nat.succ_le_succ inner)

end Grammar

/-- Each tree that is read can be written within the room that reading had. -/
theorem Formula.parseWithin_fits {r : Resolver} {room : Nat} {s : List Char} {f : Formula}
    (h : parseWithin r room s = .ok f) : f.IsTreeOf r ∧ f.nesting ≤ room := by
  obtain ⟨_, _, -, -, shallow, n, fits, derived⟩ := derives_of_parseWithin h
  have nested : f.nestingWithin 1 ≤ n := derived.nestingWithin_le
  exact ⟨⟨shallow, derived.leaves⟩, (nesting_le_nestingWithin 1 f).trans (nested.trans fits)⟩

theorem Formula.parse_fits {r : Resolver} {s : List Char} {f : Formula} (h : parse r s = .ok f) :
    f.IsTreeOf r ∧ f.nesting ≤ Parser.nestingLimit :=
  parseWithin_fits (parse_eq_parseWithin.symm.trans h)

/-- A formula that comes of an input reads no cell, or was read as a formula. -/
theorem Formula.ofInput_fits {r : Resolver} {raw : String} {f : Formula}
    (h : ofInput r raw = .ok f) : (∃ s, f = .text s) ∨ f.IsTreeOf r ∧ f.nesting ≤ Parser.nestingLimit := by
  unfold ofInput at h
  split at h
  · cases h
    exact .inl ⟨_, rfl⟩
  · exact .inr (parse_fits h)
  · split at h
    · cases h
      exact .inl ⟨_, rfl⟩
    · split at h
      · exact .inr (parse_fits h)
      · cases h
        exact .inl ⟨_, rfl⟩

end Spreadsheet
