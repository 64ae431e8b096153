/-! Breadth-first search for a shortest path. -/
namespace Spreadsheet.Graph

variable {α : Type} [DecidableEq α]

/-- The vertices one edge further on that are not in `seen`. A vertex of a layer comes with the
path that led to it, last vertex first. -/
def nextLayer (next : α → List α) (seen : List α) : List (α × List α) → List (α × List α)
  | [] => []
  | (a, trail) :: layer =>
    let fresh := (next a).filter (· ∉ seen)
    fresh.map (·, a :: trail) ++ nextLayer next (fresh ++ seen) layer

/-- Looks for `target` in a layer and in those behind it, `count` layers in all. All layers so
far are in `seen`. -/
def search (next : α → List α) (target : α) :
    (count : Nat) → (seen : List α) → (layer : List (α × List α)) → Option (List α)
  | 0, _, _ => none
  | count + 1, seen, layer =>
    match layer.find? (·.1 = target) with
    | some (a, trail) => some (a :: trail).reverse
    | none =>
      let further := nextLayer next seen layer
      search next target count (further.map (·.1) ++ seen) further

/-- The vertices of a shortest path, both ends included, if one has at most `count` vertices; of
several the one whose edges come first. -/
def shortestPath? (next : α → List α) (count : Nat) (source target : α) : Option (List α) :=
  search next target count [source] [(source, [])]

end Spreadsheet.Graph
