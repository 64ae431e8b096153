import Mathlib
import Spreadsheet.Graph.BreadthFirst
import Spreadsheet.Graph.DepthFirst

/-! The breadth-first search finds a shortest path wherever there is a path. -/
namespace Spreadsheet.Graph

variable {α β : Type}

/-- The vertices of a path from `source` to `target`, both ends included; `edge` relates each to
the one behind it. -/
structure IsPath (edge : α → α → Prop) (source target : α) (path : List α) : Prop where
  first : path.head? = some source
  last : path.getLast? = some target
  edges : path.IsChain edge

section paths
variable {edge : α → α → Prop} {source a b : α} {path : List α}

theorem isPath_single (a : α) : IsPath edge a a [a] := ⟨rfl, rfl, .singleton a⟩

theorem IsPath.concat (h : IsPath edge source a path) (onward : edge a b) :
    IsPath edge source b (path ++ [b]) where
  first := by rw [List.head?_append, h.first, Option.some_or]
  last := List.getLast?_concat
  edges := by
    refine h.edges.append (.singleton b) fun x end' y start => ?_
    rw [h.last, Option.mem_some_iff] at end'
    rw [List.head?_singleton, Option.mem_some_iff] at start
    rwa [← end', ← start]

/-- A path ends where it begins, or it has a last edge. -/
theorem IsPath.cases_last (h : IsPath edge source b path) : b = source ∧ path = [source] ∨
    ∃ a before, path = before ++ [b] ∧ IsPath edge source a before ∧ edge a b := by
  obtain ⟨first, last, edges⟩ := h
  cases path using List.reverseRecOn with
  | nil => cases first
  | append_singleton before c =>
    rw [List.getLast?_concat, Option.some.injEq] at last
    subst last
    cases end' : before.getLast? with
    | none =>
      rw [List.getLast?_eq_none_iff.mp end'] at first ⊢
      cases first
      exact .inl ⟨rfl, rfl⟩
    | some a =>
      obtain ⟨front, -, joined⟩ := List.isChain_append.mp edges
      have before_ne : before ≠ [] := by
        rintro rfl
        cases end'
      rw [List.head?_append_of_ne_nil _ before_ne] at first
      exact .inr ⟨a, before, rfl, ⟨first, end', front⟩, joined a end' c rfl⟩

theorem IsPath.length_pos (h : IsPath edge source a path) : 0 < path.length := by
  cases path with
  | nil => cases h.first
  | cons => exact Nat.succ_pos _

/-- What holds at the start and along every edge holds all the way. -/
theorem IsPath.forall_mem {P : α → Prop} (h : IsPath edge source a path) (start : P source)
    (step : ∀ a b, edge a b → P a → P b) : ∀ c ∈ path, P c := by
  refine h.edges.induction P path (fun a b => step a b) fun nonempty => ?_
  have first := h.first
  rw [List.head?_eq_some_head nonempty, Option.some.injEq] at first
  rwa [first]

theorem IsPath.map {edge' : β → β → Prop} {f : α → β} (h : IsPath edge source a path)
    (carried : ∀ a b, edge a b → edge' (f a) (f b)) :
    IsPath edge' (f source) (f a) (path.map f) where
  first := by rw [List.head?_map, h.first, Option.map_some]
  last := by rw [List.getLast?_map, h.last, Option.map_some]
  edges := (List.isChain_map f).mpr (h.edges.imp carried)

/-- No path has fewer vertices. -/
structure IsShortestPath (edge : α → α → Prop) (source target : α) (path : List α) : Prop
    extends IsPath edge source target path where
  shortest : ∀ other, IsPath edge source target other → path.length ≤ other.length

end paths

variable [DecidableEq α] {next : α → List α} {nodes seen : List α} {layer : List (α × List α)}
  {source target : α} {depth : Nat}

/-! One layer. -/

theorem exists_of_mem_nextLayer {b : α} {trail : List α}
    (h : (b, trail) ∈ nextLayer next seen layer) :
    b ∉ seen ∧ ∃ a before, (a, before) ∈ layer ∧ trail = a :: before ∧ b ∈ next a := by
  induction layer generalizing seen with
  | nil => cases h
  | cons entry layer ih =>
    obtain ⟨a, before⟩ := entry
    rcases List.mem_append.mp h with here | later
    · obtain ⟨c, fresh, same⟩ := List.mem_map.mp here
      cases same
      rw [List.mem_filter, decide_eq_true_eq] at fresh
      exact ⟨fresh.2, a, before, List.mem_cons_self, rfl, fresh.1⟩
    · obtain ⟨new, c, before, listed, rfl, edge⟩ := ih later
      rw [List.mem_append, not_or] at new
      exact ⟨new.2, c, before, List.mem_cons_of_mem _ listed, rfl, edge⟩

theorem mem_or_mem_nextLayer {a b : α} (listed : a ∈ layer.map (·.1)) (edge : b ∈ next a) :
    b ∈ seen ∨ b ∈ (nextLayer next seen layer).map (·.1) := by
  induction layer generalizing seen with
  | nil => cases listed
  | cons entry layer ih =>
    obtain ⟨c, before⟩ := entry
    rw [nextLayer, List.map_append, List.map_map, List.mem_append]
    rcases List.mem_cons.mp listed with rfl | listed
    · by_cases known : b ∈ seen
      · exact .inl known
      · exact .inr (.inl (List.mem_map.mpr ⟨b, List.mem_filter.mpr ⟨edge, decide_eq_true known⟩, rfl⟩))
    · rcases @ih ((next c).filter (· ∉ seen) ++ seen) listed with known | later
      · rcases List.mem_append.mp known with fresh | known
        · exact .inr (.inl (List.mem_map.mpr ⟨b, fresh, rfl⟩))
        · exact .inl known
      · exact .inr (.inr later)

/-! The search. -/

/-- What is known when a search has come to a layer, with `depth` layers before it: `seen` holds
all that shorter paths lead to and is left through the layer only, each vertex of the layer stands
with a path to it, and no layer before held `target`. -/
structure Searched (next : α → List α) (source target : α) (depth : Nat) (seen : List α)
    (layer : List (α × List α)) : Prop where
  near : ∀ a path, IsPath (fun a b => b ∈ next a) source a path → path.length ≤ depth + 1 → a ∈ seen
  border : ∀ a ∈ seen, ∀ b ∈ next a, b ∈ seen ∨ a ∈ layer.map (·.1)
  trails : ∀ a trail, (a, trail) ∈ layer →
    IsPath (fun a b => b ∈ next a) source a (a :: trail).reverse ∧ trail.length = depth
  simple : ∀ a trail, (a, trail) ∈ layer → (a :: trail).Nodup ∧ a :: trail ⊆ seen
  far : ∀ path, IsPath (fun a b => b ∈ next a) source target path → depth < path.length
  unmet : target ∈ seen → target ∈ layer.map (·.1)

theorem searched_start (next : α → List α) (source target : α) :
    Searched next source target 0 [source] [(source, [])] where
  near := by
    intro a path h short
    rcases h.cases_last with ⟨rfl, -⟩ | ⟨c, before, rfl, h, -⟩
    · exact List.mem_singleton_self a
    · have := h.length_pos
      rw [List.length_append, List.length_singleton] at short
      omega
  border := fun a member b _ => .inr member
  trails := by
    intro a trail member
    cases List.mem_singleton.mp member
    exact ⟨isPath_single source, rfl⟩
  simple := by
    intro a trail member
    cases List.mem_singleton.mp member
    exact ⟨List.nodup_singleton source, List.Subset.refl _⟩
  far := fun path h => h.length_pos
  unmet := id

/-- With the next layer comes all that is one edge further on. -/
theorem Searched.mem_append (h : Searched next source target depth seen layer) {a b : α}
    (known : a ∈ seen) (edge : b ∈ next a) : b ∈ (nextLayer next seen layer).map (·.1) ++ seen := by
  rcases h.border a known b edge with known | listed
  · exact List.mem_append_right _ known
  · exact List.mem_append.mpr (mem_or_mem_nextLayer listed edge).symm

theorem Searched.step (h : Searched next source target depth seen layer)
    (absent : target ∉ layer.map (·.1)) :
    Searched next source target (depth + 1) ((nextLayer next seen layer).map (·.1) ++ seen)
      (nextLayer next seen layer) where
  near := by
    intro b path onward short
    rcases onward.cases_last with ⟨rfl, rfl⟩ | ⟨a, before, rfl, path, edge⟩
    · exact List.mem_append_right _ (h.near b _ onward (Nat.le_add_left 1 depth))
    · rw [List.length_append, List.length_singleton] at short
      exact h.mem_append (h.near a before path (by omega)) edge
  border := by
    intro a member b edge
    rcases List.mem_append.mp member with new | old
    · exact .inr new
    · exact .inl (h.mem_append old edge)
  trails := by
    intro b trail member
    obtain ⟨-, a, before, listed, rfl, edge⟩ := exists_of_mem_nextLayer member
    obtain ⟨path, length⟩ := h.trails a before listed
    rw [List.reverse_cons]
    exact ⟨path.concat edge, congrArg Nat.succ length⟩
  simple := by
    intro b trail member
    obtain ⟨new, a, before, listed, rfl, -⟩ := exists_of_mem_nextLayer member
    obtain ⟨nodup, known⟩ := h.simple a before listed
    refine ⟨List.nodup_cons.mpr ⟨fun again => new (known again), nodup⟩, ?_⟩
    refine List.cons_subset.mpr ⟨List.mem_append_left _ (List.mem_map_of_mem member), ?_⟩
    exact List.Subset.trans known (List.subset_append_right _ _)
  far := by
    intro path onward
    by_contra short
    exact absent (h.unmet (h.near target path onward (by omega)))
  unmet := by
    intro met
    rcases List.mem_append.mp met with new | old
    · exact new
    · exact absurd (h.unmet old) absent

/-- While the target has not been met there are vertices left, so the layers run out of vertices
before the search runs out of layers. -/
theorem Searched.fewer_left (h : Searched next source target depth seen layer)
    (inside : ∀ a, ∀ b ∈ next a, b ∈ nodes)
    (path : Relation.ReflTransGen (fun a b => b ∈ next a) source target)
    (absent : target ∉ layer.map (·.1)) :
    (nodes.filter (· ∉ (nextLayer next seen layer).map (·.1) ++ seen)).length <
      (nodes.filter (· ∉ seen)).length := by
  have more : nextLayer next seen layer ≠ [] := by
    intro none
    have all : ∀ c, Relation.ReflTransGen (fun a b => b ∈ next a) source c → c ∈ seen := by
      intro c way
      induction way with
      | refl => exact h.near source _ (isPath_single source) (Nat.le_add_left 1 depth)
      | tail _ edge ih => simpa [none] using h.mem_append ih edge
    exact absent (h.unmet (all target path))
  obtain ⟨⟨b, trail⟩, member⟩ := List.exists_mem_of_ne_nil _ more
  obtain ⟨new, a, -, -, -, edge⟩ := exists_of_mem_nextLayer member
  refine Nat.lt_of_le_of_lt ?_ (length_filter_not_mem_lt (inside a b edge) new)
  refine List.Sublist.length_le (List.monotone_filter_right nodes fun c fresh => ?_)
  simp only [List.mem_append, not_or, decide_eq_true_eq] at fresh
  rw [decide_eq_true_eq, List.mem_cons, not_or]
  exact ⟨fun same => fresh.1 (same ▸ List.mem_map_of_mem member), fresh.2⟩

theorem Searched.search (h : Searched next source target depth seen layer)
    (inside : ∀ a, ∀ b ∈ next a, b ∈ nodes)
    (path : Relation.ReflTransGen (fun a b => b ∈ next a) source target) {count : Nat}
    (enough : (nodes.filter (· ∉ seen)).length < count) :
    ∃ path, Graph.search next target count seen layer = some path ∧ path.Nodup ∧
      IsShortestPath (fun a b => b ∈ next a) source target path := by
  induction count generalizing depth seen layer with
  | zero => cases enough
  | succ count ih =>
    rw [Graph.search]
    cases found : layer.find? (·.1 = target) with
    | some entry =>
      obtain ⟨a, trail⟩ := entry
      have listed := List.mem_of_find?_eq_some found
      obtain rfl : a = target := by simpa using List.find?_some found
      obtain ⟨path, length⟩ := h.trails a trail listed
      refine ⟨_, rfl, List.nodup_reverse.mpr (h.simple a trail listed).1, path, fun other onward => ?_⟩
      rw [List.length_reverse, List.length_cons, length]
      exact h.far other onward
    | none =>
      have absent : target ∉ layer.map (·.1) := by
        intro listed
        obtain ⟨entry, listed, same⟩ := List.mem_map.mp listed
        exact List.find?_eq_none.mp found entry listed (decide_eq_true same)
      have fewer := h.fewer_left inside path absent
      exact ih (h.step absent) (by omega)

/-- Where there is a path there is one without repetitions, so it is enough to look through as
many layers as there are vertices. -/
theorem shortestPath?_eq_some (start : source ∈ nodes) (inside : ∀ a, ∀ b ∈ next a, b ∈ nodes)
    (path : Relation.ReflTransGen (fun a b => b ∈ next a) source target) :
    ∃ path, shortestPath? next nodes.length source target = some path ∧ path.Nodup ∧
      IsShortestPath (fun a b => b ∈ next a) source target path := by
  refine (searched_start next source target).search inside path ?_
  have fewer := length_filter_not_mem_lt start (List.not_mem_nil (a := source))
  simpa using fewer

end Spreadsheet.Graph
