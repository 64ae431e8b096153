import Spreadsheet.Proofs.RenderingRoundTrip

/-! When a formula can be restated: its text needs the addresses of some of its cells, and those
addresses can be told from the text. -/
namespace Spreadsheet.Formula
open Spreadsheet.Parser

variable {r : Resolver} {addressOf addressOf' : CellId → Option Address} {f g : Formula}

/-- The cells whose addresses stand in the text; of a range, the first and the last. -/
def ends : Formula → List CellId
  | number _ | text _ => []
  | reference cell => [cell]
  | range _ first rest => [first, rest.getLast?.getD first]
  | negate operand => operand.ends
  | binary _ left right => left.ends ++ right.ends

theorem ends_subset_cells (f : Formula) : f.ends ⊆ f.cells := by
  induction f with
  | number | text => exact List.Subset.refl _
  | reference cell => exact List.Subset.refl _
  | range op first rest =>
    intro cell member
    simp only [ends, List.mem_cons, List.not_mem_nil, or_false] at member
    rcases member with rfl | rfl
    · exact List.mem_cons_self
    · cases last : rest.getLast? with
      | none => exact List.mem_cons_self
      | some cell => exact List.mem_cons_of_mem _ (List.mem_of_getLast? last)
  | negate operand ih => exact ih
  | binary op left right ihl ihr =>
    intro cell member
    rcases List.mem_append.mp member with member | member
    · exact List.mem_append_left _ (ihl member)
    · exact List.mem_append_right _ (ihr member)

/-- All leaves can be written: numbers as literals, cells by their addresses. -/
structure Writable (addressOf : CellId → Option Address) (f : Formula) : Prop where
  leaves : ∀ leaf ∈ f.leaves, ∃ r, leaf.IsLeafOf r
  ends : ∀ cell ∈ f.ends, ∃ a, addressOf cell = some a ∧ a.IsWritable

theorem Writable.negate (h : Writable addressOf (.negate f)) : Writable addressOf f :=
  ⟨h.leaves, h.ends⟩

theorem Writable.left {op : BinaryOp} (h : Writable addressOf (.binary op f g)) :
    Writable addressOf f :=
  ⟨fun leaf member => h.leaves leaf (List.mem_append_left _ member),
    fun cell member => h.ends cell (List.mem_append_left _ member)⟩

theorem Writable.right {op : BinaryOp} (h : Writable addressOf (.binary op f g)) :
    Writable addressOf g :=
  ⟨fun leaf member => h.leaves leaf (List.mem_append_right _ member),
    fun cell member => h.ends cell (List.mem_append_right _ member)⟩

/-- A resolver that knows the addresses of the ends restates the formula. -/
theorem Writable.exists_restated (h : Writable addressOf f)
    (cells : ∀ cell ∈ f.ends, ∀ a, addressOf cell = some a → (r.cell a).isSome)
    (ranges : ∀ a b, (r.cell a).isSome → (r.cell b).isSome →
      ∃ first rest, r.range a b = some (first :: rest)) :
    ∃ g, Restated r addressOf f g := by
  induction f with
  | number n =>
    obtain ⟨_, literal⟩ := h.leaves (.number n) (by simp [Formula.leaves])
    exact ⟨_, .number literal⟩
  | text s =>
    obtain ⟨_, never⟩ := h.leaves (.text s) (by simp [Formula.leaves])
    exact never.elim
  | reference cell =>
    obtain ⟨a, known, writable⟩ := h.ends cell (by simp [Formula.ends])
    obtain ⟨target, resolved⟩ := Option.isSome_iff_exists.mp
      (cells cell (by simp [Formula.ends]) a known)
    exact ⟨_, .reference known writable resolved⟩
  | range op first rest =>
    obtain ⟨a, known, writable⟩ := h.ends first (by simp [Formula.ends])
    obtain ⟨b, known', writable'⟩ := h.ends (rest.getLast?.getD first) (by simp [Formula.ends])
    obtain ⟨first', rest', resolved⟩ := ranges a b (cells first (by simp [Formula.ends]) a known)
      (cells _ (by simp [Formula.ends]) b known')
    exact ⟨_, .range known known' writable writable' resolved⟩
  | negate operand ih =>
    obtain ⟨g, restated⟩ := ih h.negate cells
    exact ⟨_, .negate restated⟩
  | binary op left right ihl ihr =>
    obtain ⟨g, restatedLeft⟩ := ihl h.left fun cell member =>
      cells cell (List.mem_append_left _ member)
    obtain ⟨g', restatedRight⟩ := ihr h.right fun cell member =>
      cells cell (List.mem_append_right _ member)
    exact ⟨_, .binary restatedLeft restatedRight⟩

/-- What holds of all cells of the restated leaves holds of all cells. -/
theorem Restated.forall_cells (h : Restated r addressOf f g) {P : CellId → Prop}
    (each : ∀ leaf ∈ f.leaves, ∀ leaf', Restated r addressOf leaf leaf' → ∀ p ∈ leaf'.cells, P p) :
    ∀ p ∈ g.cells, P p := by
  induction h with
  | number => simp [cells]
  | reference known writable resolved =>
    exact each _ (by simp [leaves]) _ (.reference known writable resolved)
  | range known known' writable writable' resolved =>
    exact each _ (by simp [leaves]) _ (.range known known' writable writable' resolved)
  | negate _ ih => exact ih each
  | binary _ _ ihl ihr =>
    intro p member
    rcases List.mem_append.mp member with member | member
    · exact ihl (fun leaf h => each leaf (List.mem_append_left _ h)) p member
    · exact ihr (fun leaf h => each leaf (List.mem_append_right _ h)) p member

theorem mem_cells_iff {p : CellId} : p ∈ f.cells ↔ ∃ leaf ∈ f.leaves, p ∈ leaf.cells := by
  induction f with
  | number | text | reference | range => simp [leaves]
  | negate operand ih => exact ih
  | binary op left right ihl ihr =>
    simp only [cells, leaves, List.mem_append, ihl, ihr, or_and_right, exists_or]

theorem ends_subset_of_mem_leaves {leaf : Formula} (member : leaf ∈ f.leaves) :
    leaf.ends ⊆ f.ends := by
  induction f with
  | number | text | reference | range =>
    rw [List.mem_singleton.mp member]
    exact List.Subset.refl _
  | negate operand ih => exact ih member
  | binary op left right ihl ihr =>
    rcases List.mem_append.mp member with member | member
    · exact List.Subset.trans (ihl member) (List.subset_append_left _ _)
    · exact List.Subset.trans (ihr member) (List.subset_append_right _ _)

/-! Which addresses a text names: read it with a resolver that hands out a cell of its own for
each address. -/

def addressCode (a : Address) : CellId := ⟨Nat.pair a.column a.row⟩

theorem addressCode_inj {a b : Address} (h : addressCode a = addressCode b) : a = b := by
  obtain ⟨column, row⟩ := a
  obtain ⟨column', row'⟩ := b
  simp only [addressCode, CellId.mk.injEq] at h
  have := congrArg Nat.unpair h
  simp only [Nat.unpair_pair, Prod.mk.injEq] at this
  rw [this.1, this.2]

def addressCoding : Resolver where
  cell a := some (addressCode a)
  range a b := some [addressCode a, addressCode b]

theorem Restated.ends_code (h : Restated addressCoding addressOf f g) :
    g.ends.map some = f.ends.map fun cell => (addressOf cell).map addressCode := by
  induction h with
  | number => rfl
  | reference known _ resolved =>
    cases resolved
    simp [ends, known]
  | range known known' _ _ resolved =>
    cases resolved
    simp [ends, known, known']
  | negate _ ih => exact ih
  | binary _ _ ihl ihr => simp only [ends, List.map_append, ihl, ihr]

/-- Under which two layouts a formula has one text, its ends have the same addresses. -/
theorem addresses_eq_of_toChars_eq (h : Writable addressOf f) (h' : Writable addressOf' f)
    (nested : f.nesting ≤ nestingLimit) (shallow : f.depth ≤ depthLimit)
    (same : f.toChars addressOf = f.toChars addressOf') {cell : CellId} (member : cell ∈ f.ends) :
    addressOf cell = addressOf' cell := by
  have ranges : ∀ a b, (addressCoding.cell a).isSome → (addressCoding.cell b).isSome →
      ∃ first rest, addressCoding.range a b = some (first :: rest) := fun a b _ _ => ⟨_, _, rfl⟩
  obtain ⟨g, restated⟩ := h.exists_restated (fun _ _ _ _ => rfl) ranges
  obtain ⟨g', restated'⟩ := h'.exists_restated (fun _ _ _ _ => rfl) ranges
  have read := restated.parse nested shallow
  rw [same, restated'.parse nested shallow] at read
  cases read
  have codes := restated.ends_code.symm.trans restated'.ends_code
  have code := List.map_inj_left.mp codes cell member
  obtain ⟨a, known, -⟩ := h.ends cell member
  obtain ⟨b, known', -⟩ := h'.ends cell member
  simp only [known, known', Option.map_some, Option.some.injEq] at code ⊢
  exact addressCode_inj code

end Spreadsheet.Formula
