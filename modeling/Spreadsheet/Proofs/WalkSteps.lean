import Spreadsheet.Proofs.TopologicalOrder

/-! The depth-first walk as a loop with a stack of its own: step by step it comes to the order that
the recursion gives, or to the same cycle. The stack holds the path to the vertex that the walk
stands on, and each vertex on it keeps the edges that are still to be followed. -/
namespace Spreadsheet.Graph

structure Frame (α : Type) where
  vertex : α
  edges : List α

structure Walk (α : Type) where
  roots : List α
  frames : List (Frame α)
  order : List α

namespace Walk
variable {α : Type} [DecidableEq α] (next : α → List α)

/-- The last root is taken first. -/
def start (roots : List α) : Walk α := ⟨roots.reverse, [], []⟩

/-- What is finished stays; an edge back into the path ends the walk, and so does the last root. -/
def step : Walk α → Walk α ⊕ Except (List α) (List α)
  | ⟨[], [], order⟩ => .inr (.ok order)
  | ⟨root :: roots, [], order⟩ =>
    if root ∈ order then .inl ⟨roots, [], order⟩
    else .inl ⟨roots, [⟨root, (next root).reverse⟩], order⟩
  | ⟨roots, ⟨a, []⟩ :: frames, order⟩ => .inl ⟨roots, frames, a :: order⟩
  | ⟨roots, ⟨a, b :: edges⟩ :: frames, order⟩ =>
    if b ∈ a :: frames.map Frame.vertex then
      .inr (.error (b :: a :: frames.map Frame.vertex).reverse)
    else if b ∈ order then .inl ⟨roots, ⟨a, edges⟩ :: frames, order⟩
    else .inl ⟨roots, ⟨b, (next b).reverse⟩ :: ⟨a, edges⟩ :: frames, order⟩

/-- What the loop leaves behind, if it ends within `count` steps. -/
def run : (count : Nat) → Walk α → Option (Except (List α) (List α))
  | 0, _ => none
  | count + 1, w =>
    match w.step next with
    | .inl v => run count v
    | .inr result => some result

/-- The steps taken for these vertices: one for each edge, and one to finish. -/
def cost (order : List α) : Nat := (order.map fun a => (next a).length + 1).sum

def Takes (count : Nat) (w v : Walk α) : Prop := ∀ rest, w.run next (count + rest) = v.run next rest

variable {next} {w v u : Walk α} {m n : Nat}

theorem Takes.refl : Takes next 0 w w := fun rest => by rw [Nat.zero_add]

theorem Takes.single (h : w.step next = .inl v) : Takes next 1 w v := by
  intro rest
  rw [Nat.add_comm, run, h]

theorem Takes.trans (first : Takes next m w v) (second : Takes next n v u) :
    Takes next (m + n) w u := by
  intro rest
  rw [Nat.add_assoc, first, second]

/-- Where a part of the walk that starts in `w` gets: out of the loop if it closes a cycle, else to
where its order says, after the steps of all that is new and of `edges` more. -/
def Leads (next : α → List α) (order : List α) (edges : Nat) (w : Walk α) (v : List α → Walk α) :
    Except (List α) (List α) → Prop
  | .ok order' => ∃ n, n + cost next order = cost next order' + edges ∧ Takes next n w (v order')
  | .error path => ∃ n, ∀ rest, w.run next (n + rest) = some (.error path)

variable {order path : List α} {edges : Nat} {dest : List α → Walk α}
  {result : Except (List α) (List α)}

theorem Leads.error (h : w.step next = .inr (.error path)) :
    Leads next order edges w dest (.error path) :=
  ⟨1, fun rest => by rw [Nat.add_comm, run, h]⟩

theorem Leads.step (h : w.step next = .inl v) (later : Leads next order edges v dest result) :
    Leads next order (edges + 1) w dest result := by
  cases result with
  | error path =>
    obtain ⟨n, left⟩ := later
    exact ⟨1 + n, fun rest => by rw [Nat.add_assoc, Takes.single h, left]⟩
  | ok order' =>
    obtain ⟨n, count, taken⟩ := later
    exact ⟨1 + n, by omega, (Takes.single h).trans taken⟩

theorem Leads.bind {more : Nat} {between : List α → Walk α}
    {f : List α → Except (List α) (List α)} (first : Leads next order edges w between result)
    (later : ∀ order, Leads next order more (between order) dest (f order)) :
    Leads next order (edges + more) w dest (result >>= f) := by
  cases result with
  | error path => exact first
  | ok order' =>
    obtain ⟨m, count, taken⟩ := first
    have rest := later order'
    change Leads next order _ w dest (f order')
    cases result : f order' with
    | error path =>
      rw [result] at rest
      obtain ⟨n, left⟩ := rest
      exact ⟨m + n, fun rest => by rw [Nat.add_assoc, taken, left]⟩
    | ok order'' =>
      rw [result] at rest
      obtain ⟨n, count', taken'⟩ := rest
      exact ⟨m + n, by omega, taken.trans taken'⟩

/-- A vertex is finished after its edges. -/
theorem Leads.finish {a : α} {between : List α → Walk α}
    (children : Leads next order (next a).length w between result)
    (h : ∀ order, (between order).step next = .inl (dest (a :: order))) :
    Leads next order 0 w dest (result >>= fun order => .ok (a :: order)) := by
  cases result with
  | error path => exact children
  | ok order' =>
    obtain ⟨n, count, taken⟩ := children
    refine ⟨n + 1, ?_, taken.trans (.single (h order'))⟩
    simp only [cost, List.map_cons, List.sum_cons] at count ⊢
    omega

variable {nodes : List α}

/-- The edges of the innermost frame, one by one. -/
theorem leads_edges {a : α} {frames : List (Frame α)} {roots edges : List α}
    (enters : ∀ b ∈ edges, ∀ edges order, b ∉ a :: frames.map Frame.vertex → b ∉ order →
      Leads next order 0 ⟨roots, ⟨b, (next b).reverse⟩ :: ⟨a, edges⟩ :: frames, order⟩
        (fun order => ⟨roots, ⟨a, edges⟩ :: frames, order⟩)
        (visit next nodes (a :: frames.map Frame.vertex) order b)) (order : List α) :
    Leads next order edges.length ⟨roots, ⟨a, edges⟩ :: frames, order⟩
      (fun order => ⟨roots, ⟨a, []⟩ :: frames, order⟩)
      (edges.foldlM (visit next nodes (a :: frames.map Frame.vertex)) order) := by
  induction edges generalizing order with
  | nil => exact ⟨0, Nat.zero_add _, .refl⟩
  | cons b edges ih =>
    obtain ⟨front, others⟩ := List.forall_mem_cons.mp enters
    rw [List.foldlM_cons]
    by_cases looped : b ∈ a :: frames.map Frame.vertex
    · rw [visit, if_pos looped]
      exact .error (by rw [step, if_pos looped])
    by_cases known : b ∈ order
    · rw [visit, if_neg looped, if_pos known]
      exact .step (by rw [step, if_neg looped, if_pos known]) (ih others order)
    · rw [List.length_cons, ← Nat.zero_add edges.length]
      refine .step ?_ ((front edges order looped known).bind (ih others))
      rw [step, if_neg looped, if_neg known]

/-- A vertex that is entered is left again with its part of the walk done. -/
theorem leads_visit (sinks : ∀ a, a ∉ nodes → next a = []) (path order : List α) (a : α)
    {frames : List (Frame α)} (trail : frames.map Frame.vertex = path) (roots : List α)
    (fresh : a ∉ path) (new : a ∉ order) :
    Leads next order 0 ⟨roots, ⟨a, (next a).reverse⟩ :: frames, order⟩
      (fun order => ⟨roots, frames, order⟩) (visit next nodes path order a) := by
  -- On the recursion: its path is what stands on the stack, whatever edges wait there.
  induction path, order, a using visit.induct nodes generalizing frames with
  | case1 path order a looped => exact absurd looped fresh
  | case2 path order a _ known => exact absurd known new
  | case3 path order a _ _ node ih =>
    subst trail
    rw [visit, if_neg fresh, if_neg new, if_pos node]
    have children : Leads next order (next a).reverse.length
        ⟨roots, ⟨a, (next a).reverse⟩ :: frames, order⟩ (fun order => ⟨roots, ⟨a, []⟩ :: frames, order⟩)
        ((next a).reverse.foldlM (visit next nodes (a :: frames.map Frame.vertex)) order) :=
      leads_edges (fun b _ edges order => ih order b rfl) order
    rw [List.length_reverse] at children
    exact children.finish fun order => by rw [step]
  | case4 path order a _ _ sink =>
    rw [visit, if_neg fresh, if_neg new, if_neg sink, sinks a sink]
    refine ⟨1, ?_, .single (by rw [List.reverse_nil, step])⟩
    simp only [cost, List.map_cons, List.sum_cons, sinks a sink, List.length_nil]
    omega

theorem leads_roots (sinks : ∀ a, a ∉ nodes → next a = []) (roots order : List α) :
    Leads next order roots.length ⟨roots, [], order⟩ (fun order => ⟨[], [], order⟩)
      (roots.foldlM (visit next nodes []) order) := by
  induction roots generalizing order with
  | nil => exact ⟨0, Nat.zero_add _, .refl⟩
  | cons root roots ih =>
    rw [List.foldlM_cons]
    by_cases known : root ∈ order
    · rw [visit, if_neg List.not_mem_nil, if_pos known]
      exact .step (by rw [step, if_pos known]) (ih order)
    · have entered := leads_visit sinks [] order root List.map_nil roots List.not_mem_nil known
      rw [List.length_cons, ← Nat.zero_add roots.length]
      exact .step (by rw [step, if_neg known]) (entered.bind ih)

theorem leads_start (sinks : ∀ a, a ∉ nodes → next a = []) (roots : List α) :
    Leads next [] roots.length (start roots) (fun order => ⟨[], [], order⟩)
      (topologicalOrder next nodes roots) := by
  have walked := leads_roots sinks roots.reverse []
  rwa [List.length_reverse] at walked

/-- The loop takes one step for each root and one for each edge of what it lists, one to finish each
vertex, and one to end. -/
theorem run_start (sinks : ∀ a, a ∉ nodes → next a = []) {roots order : List α}
    (h : topologicalOrder next nodes roots = .ok order) :
    (start roots).run next (cost next order + roots.length + 1) = some (.ok order) := by
  have walked := leads_start sinks roots
  rw [h] at walked
  obtain ⟨n, count, taken⟩ := walked
  rw [← count]
  exact taken 1

/-- In any graph the loop ends, with the order or with a cycle. -/
theorem exists_run_start (sinks : ∀ a, a ∉ nodes → next a = []) (roots : List α) :
    ∃ count, (start roots).run next count = some (topologicalOrder next nodes roots) := by
  cases result : topologicalOrder next nodes roots with
  | error path =>
    have walked := leads_start sinks roots
    rw [result] at walked
    obtain ⟨n, left⟩ := walked
    exact ⟨n, left 0⟩
  | ok order => exact ⟨_, run_start sinks result⟩

end Walk
end Spreadsheet.Graph
