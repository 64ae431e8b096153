import Spreadsheet.Proofs.GrammarCompleteness
import Spreadsheet.Proofs.ParserResult

/-! Formulas over cells of other names. Reading a text with another resolver gives the same tree
under the other's names, if the two agree on the addresses that were read. -/
namespace Spreadsheet

namespace Formula

def rename (φ : CellId → CellId) : Formula → Formula
  | number n => .number n
  | text s => .text s
  | reference cell => .reference (φ cell)
  | range op first rest => .range op (φ first) (rest.map φ)
  | negate operand => .negate (operand.rename φ)
  | binary op left right => .binary op (left.rename φ) (right.rename φ)

variable {φ : CellId → CellId} {f : Formula}

@[simp] theorem depth_rename : (f.rename φ).depth = f.depth := by
  induction f with
  | number | text | reference | range => rfl
  | negate operand ih => simp only [rename, depth, ih]
  | binary op left right ihl ihr => simp only [rename, depth, ihl, ihr]

theorem cells_rename : (f.rename φ).cells = f.cells.map φ := by
  induction f with
  | number | text | reference | range => rfl
  | negate operand ih => exact ih
  | binary op left right ihl ihr => simp only [rename, cells, List.map_append, ihl, ihr]

theorem mem_precedents_rename {p : CellId} :
    p ∈ (f.rename φ).precedents ↔ ∃ q ∈ f.precedents, φ q = p := by
  simp only [mem_precedents, cells_rename, List.mem_map]

theorem rename_id : f.rename id = f := by
  induction f with
  | number | text | reference => rfl
  | range op first rest => simp only [rename, id, List.map_id]
  | negate operand ih => rw [rename, ih]
  | binary op left right ihl ihr => rw [rename, ihl, ihr]

/-- A value does not depend on the names of the cells. -/
theorem evaluate_rename {values : CellId → Option Value} :
    (f.rename φ).evaluate values = f.evaluate fun id => values (φ id) := by
  induction f with
  | number | text | reference => rfl
  | range op first rest => simp only [rename, evaluate, List.map_map, Function.comp_def]
  | negate operand ih => rw [rename, evaluate, ih, evaluate]
  | binary op left right ihl ihr => rw [rename, evaluate, ihl, ihr, evaluate]

/-- The addresses that `r` takes for the leaf, `r'` takes for it under the new names. -/
def Carried (r r' : Resolver) (φ : CellId → CellId) : Formula → Prop
  | reference cell => ∀ a, r.cell a = some cell → r'.cell a = some (φ cell)
  | range _ first rest => ∀ a b, r.range a b = some (first :: rest) →
      r'.range a b = some (φ first :: rest.map φ)
  | _ => True

theorem IsLeafOf.rename {r r' : Resolver} (leaf : f.IsLeafOf r) (carried : f.Carried r r' φ) :
    (f.rename φ).IsLeafOf r' := by
  cases f with
  | number => exact leaf
  | reference cell =>
    obtain ⟨a, resolved⟩ := leaf
    exact ⟨a, carried a resolved⟩
  | range op first rest =>
    obtain ⟨a, b, resolved⟩ := leaf
    exact ⟨a, b, carried a b resolved⟩
  | text | negate | binary => exact leaf.elim

end Formula

namespace Grammar
open Formula

variable {r r' : Resolver} {φ : CellId → CellId}

/-- What a text stands for, it stands for under the new names, if the leaves carry over. -/
theorem Derives.rename {symbol : Symbol} {s : List Char} {f : Formula} {n : Nat}
    (h : Derives r symbol s f n) (carried : ∀ leaf ∈ f.leaves, leaf.Carried r r' φ) :
    Derives r' symbol s (f.rename φ) n := by
  induction h with
  | term _ ih => exact .term (ih carried)
  | factor _ ih => exact .factor (ih carried)
  | primary _ ih => exact .primary (ih carried)
  | plus token _ ih => exact .plus token (ih carried)
  | minus token _ ih => exact .minus token (ih carried)
  | parens opening _ closing ih => exact .parens opening (ih carried) closing
  | sum isSum _ token _ ihl ihr =>
    have ⟨left, right⟩ := List.forall_mem_append.mp carried
    exact .sum isSum (ihl left) token (ihr right)
  | product isProduct _ token _ ihl ihr =>
    have ⟨left, right⟩ := List.forall_mem_append.mp carried
    exact .product isProduct (ihl left) token (ihr right)
  | power _ token _ ihl ihr =>
    have ⟨left, right⟩ := List.forall_mem_append.mp carried
    exact .power (ihl left) token (ihr right)
  | number numeral => exact .number numeral
  | reference label resolved => exact .reference label (carried _ List.mem_cons_self _ resolved)
  | range name opening corners closing resolved =>
    exact .range name opening corners closing (carried _ List.mem_cons_self _ _ resolved)

end Grammar

namespace Formula
variable {r r' : Resolver} {φ : CellId → CellId} {f : Formula}

theorem parse_carries {s : List Char} (h : parse r s = .ok f)
    (leaves : ∀ leaf ∈ f.leaves, leaf.Carried r r' φ) : parse r' s = .ok (f.rename φ) := by
  obtain ⟨_, _, rfl, blank, shallow, n, fits, derived⟩ := derives_of_parse h
  exact parse_of_derives (derived.rename leaves) fits (by rwa [depth_rename]) blank

/-- An input stands for the same formula, if the addresses that it names stand for the same cells
but for their names. -/
theorem ofInput_carries {raw : String} (h : ofInput r raw = .ok f)
    (leaves : ∀ leaf ∈ f.leaves, leaf.Carried r r' φ) : ofInput r' raw = .ok (f.rename φ) := by
  unfold ofInput at h ⊢
  split at h
  · cases h
    rfl
  · exact parse_carries h leaves
  · split at h
    · rename_i quoted
      cases h
      rw [if_pos quoted]
      rfl
    · rename_i notQuoted
      rw [if_neg notQuoted]
      split at h
      · rename_i arithmetic
        rw [if_pos arithmetic]
        exact parse_carries h leaves
      · rename_i words
        cases h
        rw [if_neg words]
        rfl

end Formula
end Spreadsheet
