/-! Depth-first walk of a finite directed graph. -/
namespace Spreadsheet.Graph

variable {α : Type} [DecidableEq α]

theorem length_filter_not_mem_lt {nodes path : List α} {a : α} (node : a ∈ nodes)
    (new : a ∉ path) :
    (nodes.filter (· ∉ a :: path)).length < (nodes.filter (· ∉ path)).length := by
  have sub : nodes.filter (· ∉ a :: path) = (nodes.filter (· ∉ path)).filter (· ≠ a) := by
    simp [List.filter_filter, not_or]
  rw [sub]
  refine Nat.lt_of_le_of_ne (List.length_filter_le _ _) fun equal => ?_
  have all := List.length_filter_eq_length_iff.mp equal a (by simp [node, new])
  simp at all

/-- Puts `a` in front of `order`, behind all that its edges lead to and that is not there yet;
the last edge is followed first. `path` leads to `a`, last vertex first. An edge back into the
path closes a cycle, which ends the walk with that path. Vertices outside `nodes` have no
edges. -/
def visit (next : α → List α) (nodes path order : List α) (a : α) :
    Except (List α) (List α) :=
  if a ∈ path then .error (a :: path).reverse
  else if a ∈ order then .ok order
  else if a ∈ nodes then do
    let order ← (next a).reverse.foldlM (fun order b => visit next nodes (a :: path) order b) order
    return a :: order
  else .ok (a :: order)
termination_by (nodes.filter (· ∉ path)).length
decreasing_by exact length_filter_not_mem_lt ‹_› ‹_›

/-- All that can be reached from `roots`, every vertex before those that its edges lead to;
siblings keep their order. The error is a path that ends in a vertex it has met before. -/
def topologicalOrder (next : α → List α) (nodes roots : List α) : Except (List α) (List α) :=
  roots.reverse.foldlM (visit next nodes []) []

end Spreadsheet.Graph
