import Spreadsheet.Graph.DepthFirst
import Spreadsheet.Proofs.Except

/-! The depth-first walk gives a topological order, and it fails only on a cycle. Where the graph
leaves it a choice, it follows the order of the edges. -/
namespace Spreadsheet.Graph

variable {α : Type} {next : α → List α} {nodes : List α}

/-- All that the edges of a vertex lead to stands behind it. -/
def Ordered (next : α → List α) : List α → Prop
  | [] => True
  | a :: rest => (∀ b ∈ next a, b ∈ rest) ∧ Ordered next rest

/-- No path leads from a vertex back to it. -/
def Acyclic (next : α → List α) : Prop := ∀ a, ¬ Relation.TransGen (fun a b => b ∈ next a) a a

/-- Nothing leads out of an ordered list. -/
theorem Ordered.closed {order : List α} (h : Ordered next order) {a b : α} (member : a ∈ order)
    (edge : b ∈ next a) : b ∈ order := by
  induction order with
  | nil => cases member
  | cons c rest ih =>
    obtain ⟨front, behind⟩ := h
    rcases List.mem_cons.mp member with rfl | member
    · exact List.mem_cons_of_mem _ (front b edge)
    · exact List.mem_cons_of_mem _ (ih behind member)

theorem Ordered.mono {next' : α → List α} {order : List α} (h : Ordered next order)
    (fewer : ∀ a ∈ order, ∀ b ∈ next' a, b ∈ next a) : Ordered next' order := by
  induction order with
  | nil => trivial
  | cons a rest ih =>
    obtain ⟨front, behind⟩ := h
    refine ⟨fun b edge => front b (fewer a List.mem_cons_self b edge), ih behind ?_⟩
    exact fun c member => fewer c (List.mem_cons_of_mem _ member)

/-- In a list without repetitions, what leads to a vertex stands before it. -/
theorem Ordered.mem_before {order before behind : List α} {a b : α} (h : Ordered next order)
    (nodup : order.Nodup) (split : order = before ++ b :: behind) (member : a ∈ order)
    (edge : b ∈ next a) : a ∈ before := by
  induction before generalizing order with
  | nil =>
    subst split
    obtain ⟨front, later⟩ := h
    obtain ⟨new, -⟩ := List.nodup_cons.mp nodup
    rcases List.mem_cons.mp member with rfl | member
    · exact absurd (front a edge) new
    · exact absurd (later.closed member edge) new
  | cons c before ih =>
    subst split
    rcases List.mem_cons.mp member with rfl | member
    · exact List.mem_cons_self
    · exact List.mem_cons_of_mem _ (ih h.2 nodup.of_cons rfl member)

theorem foldlM_invariant {ε : Type} {f : List α → α → Except ε (List α)} {P : List α → Prop}
    (step : ∀ order a order', P order → f order a = .ok order' → P order')
    {as order order' : List α} (start : P order) (h : as.foldlM f order = .ok order') : P order' := by
  induction as generalizing order with
  | nil =>
    cases h
    exact start
  | cons a as ih =>
    rw [List.foldlM_cons] at h
    obtain ⟨between, first, h⟩ := bind_eq_ok.mp h
    exact ih (step order a between start first) h

/-- A list to which each step only adds in front keeps what it held at first, in that order. -/
theorem foldlM_suffix {ε : Type} {f : List α → α → Except ε (List α)}
    (step : ∀ order a order', f order a = .ok order' → order <:+ order')
    {as order order' : List α} (h : as.foldlM f order = .ok order') : order <:+ order' :=
  foldlM_invariant (fun between a order' kept visited => kept.trans (step between a order' visited))
    List.suffix_rfl h

theorem foldlM_extends {ε : Type} {f : List α → α → Except ε (List α)} {P : List α → Prop}
    (step : ∀ order a order', P order → f order a = .ok order' →
      P order' ∧ a ∈ order' ∧ order ⊆ order')
    {as order order' : List α} (start : P order) (h : as.foldlM f order = .ok order') :
    P order' ∧ as ⊆ order' ∧ order ⊆ order' := by
  induction as generalizing order with
  | nil =>
    cases h
    exact ⟨start, List.nil_subset _, List.Subset.refl _⟩
  | cons a as ih =>
    rw [List.foldlM_cons] at h
    obtain ⟨between, first, h⟩ := bind_eq_ok.mp h
    obtain ⟨keeps, added, grown⟩ := step order a between start first
    obtain ⟨keeps, all, grown'⟩ := ih keeps h
    exact ⟨keeps, List.cons_subset.mpr ⟨grown' added, all⟩, List.Subset.trans grown grown'⟩

/-- Each vertex adds only what it is related to. -/
theorem mem_of_foldlM {ε : Type} {f : List α → α → Except ε (List α)} {R : α → α → Prop}
    (step : ∀ order a order', f order a = .ok order' → ∀ b ∈ order', b ∈ order ∨ R a b)
    {as order order' : List α} (h : as.foldlM f order = .ok order') {b : α} (member : b ∈ order') :
    b ∈ order ∨ ∃ a ∈ as, R a b := by
  induction as generalizing order with
  | nil =>
    cases h
    exact .inl member
  | cons a as ih =>
    rw [List.foldlM_cons] at h
    obtain ⟨between, first, h⟩ := bind_eq_ok.mp h
    rcases ih h with known | ⟨c, later, related⟩
    · rcases step order a between first b known with old | related
      · exact .inl old
      · exact .inr ⟨a, List.mem_cons_self, related⟩
    · exact .inr ⟨c, List.mem_cons_of_mem _ later, related⟩

variable [DecidableEq α]

theorem visit_ordered (sinks : ∀ a, a ∉ nodes → next a = []) (path order : List α) (a : α)
    {order' : List α} (start : Ordered next order) (h : visit next nodes path order a = .ok order') :
    Ordered next order' ∧ a ∈ order' ∧ order ⊆ order' := by
  induction path, order, a using visit.induct nodes generalizing order' with
  | case1 path order a looped =>
    rw [visit, if_pos looped] at h
    contradiction
  | case2 path order a fresh known =>
    rw [visit, if_neg fresh, if_pos known] at h
    cases h
    exact ⟨start, known, List.Subset.refl _⟩
  | case3 path order a fresh new node ih =>
    rw [visit, if_neg fresh, if_neg new, if_pos node] at h
    obtain ⟨behind, children, h⟩ := bind_eq_ok.mp h
    cases h
    have step := fun order b order' => @ih order b order'
    obtain ⟨ordered, all, grown⟩ := foldlM_extends step start children
    refine ⟨⟨fun b edge => all (List.mem_reverse.mpr edge), ordered⟩, List.mem_cons_self, ?_⟩
    exact List.Subset.trans grown (List.subset_cons_self _ _)
  | case4 path order a fresh new sink =>
    rw [visit, if_neg fresh, if_neg new, if_neg sink] at h
    cases h
    refine ⟨⟨?_, start⟩, List.mem_cons_self, List.subset_cons_self _ _⟩
    simp [sinks a sink]

/-- A path leads from the vertex to all that is new. -/
theorem visit_reachable (path order : List α) (a : α) {order' : List α}
    (h : visit next nodes path order a = .ok order') (b : α) (member : b ∈ order') :
    b ∈ order ∨ Relation.ReflTransGen (fun a b => b ∈ next a) a b := by
  induction path, order, a using visit.induct nodes generalizing order' b with
  | case1 path order a looped =>
    rw [visit, if_pos looped] at h
    contradiction
  | case2 path order a fresh known =>
    rw [visit, if_neg fresh, if_pos known] at h
    cases h
    exact .inl member
  | case3 path order a fresh new node ih =>
    rw [visit, if_neg fresh, if_neg new, if_pos node] at h
    obtain ⟨behind, children, h⟩ := bind_eq_ok.mp h
    cases h
    rcases List.mem_cons.mp member with rfl | member
    · exact .inr .refl
    · rcases mem_of_foldlM (fun order b order' => @ih order b order') children member with
        old | ⟨c, edge, onward⟩
      · exact .inl old
      · exact .inr (onward.head (List.mem_reverse.mp edge))
  | case4 path order a fresh new sink =>
    rw [visit, if_neg fresh, if_neg new, if_neg sink] at h
    cases h
    rcases List.mem_cons.mp member with rfl | old
    · exact .inr .refl
    · exact .inl old

/-- No vertex is listed twice, since those on the path are kept out until the walk is back. -/
theorem visit_nodup (path order : List α) (a : α) {order' : List α}
    (start : order.Nodup ∧ ∀ p ∈ path, p ∉ order) (h : visit next nodes path order a = .ok order') :
    order'.Nodup ∧ ∀ p ∈ path, p ∉ order' := by
  induction path, order, a using visit.induct nodes generalizing order' with
  | case1 path order a looped =>
    rw [visit, if_pos looped] at h
    contradiction
  | case2 path order a fresh known =>
    rw [visit, if_neg fresh, if_pos known] at h
    cases h
    exact start
  | case3 path order a fresh new node ih =>
    rw [visit, if_neg fresh, if_neg new, if_pos node] at h
    obtain ⟨behind, children, h⟩ := bind_eq_ok.mp h
    cases h
    have inside : order.Nodup ∧ ∀ p ∈ a :: path, p ∉ order :=
      ⟨start.1, List.forall_mem_cons.mpr ⟨new, start.2⟩⟩
    obtain ⟨nodup, away⟩ := foldlM_invariant (fun order b order' => @ih order b order') inside children
    obtain ⟨front, others⟩ := List.forall_mem_cons.mp away
    refine ⟨List.nodup_cons.mpr ⟨front, nodup⟩, fun p member => ?_⟩
    exact List.not_mem_cons_of_ne_of_not_mem (fun same => fresh (same ▸ member)) (others p member)
  | case4 path order a fresh new sink =>
    rw [visit, if_neg fresh, if_neg new, if_neg sink] at h
    cases h
    refine ⟨List.nodup_cons.mpr ⟨new, start.1⟩, fun p member => ?_⟩
    exact List.not_mem_cons_of_ne_of_not_mem (fun same => fresh (same ▸ member)) (start.2 p member)

theorem visit_ok (acyclic : Acyclic next) (path order : List α) (a : α)
    (leads : ∀ p ∈ path, Relation.TransGen (fun a b => b ∈ next a) p a) :
    ∃ order', visit next nodes path order a = .ok order' := by
  induction path, order, a using visit.induct nodes with
  | case1 path order a looped => exact absurd (leads a looped) (acyclic a)
  | case2 path order a fresh known =>
    rw [visit, if_neg fresh, if_pos known]
    exact ⟨order, rfl⟩
  | case3 path order a fresh new node ih =>
    rw [visit, if_neg fresh, if_neg new, if_pos node]
    have children : ∀ b ∈ (next a).reverse, ∀ order,
        ∃ order', visit next nodes (a :: path) order b = .ok order' := by
      intro b edge order
      rw [List.mem_reverse] at edge
      refine ih order b fun p member => ?_
      rcases List.mem_cons.mp member with rfl | member
      · exact .single edge
      · exact (leads p member).tail edge
    obtain ⟨order', h⟩ := exists_foldlM_eq_ok children order
    exact ⟨a :: order', by rw [h]; rfl⟩
  | case4 path order a fresh new sink =>
    rw [visit, if_neg fresh, if_neg new, if_neg sink]
    exact ⟨a :: order, rfl⟩

/-- The walk only puts vertices in front. -/
theorem visit_suffix (path order : List α) (a : α) {order' : List α}
    (h : visit next nodes path order a = .ok order') : order <:+ order' := by
  induction path, order, a using visit.induct nodes generalizing order' with
  | case1 path order a looped =>
    rw [visit, if_pos looped] at h
    contradiction
  | case2 path order a fresh known =>
    rw [visit, if_neg fresh, if_pos known] at h
    cases h
    exact List.suffix_rfl
  | case3 path order a fresh new node ih =>
    rw [visit, if_neg fresh, if_neg new, if_pos node] at h
    obtain ⟨behind, children, h⟩ := bind_eq_ok.mp h
    cases h
    have kept := foldlM_suffix (fun order b order' => @ih order b order') children
    exact kept.trans (List.suffix_cons a behind)
  | case4 path order a fresh new sink =>
    rw [visit, if_neg fresh, if_neg new, if_neg sink] at h
    cases h
    exact List.suffix_cons a order

/-- All that was listed before a new vertex stands behind it. -/
theorem visit_new {path order order' : List α} {a : α} (new : a ∉ order)
    (h : visit next nodes path order a = .ok order') :
    ∃ rest, order' = a :: rest ∧ order <:+ rest := by
  unfold visit at h
  split at h
  · contradiction
  · split at h
    · obtain ⟨behind, children, h⟩ := bind_eq_ok.mp h
      cases h
      exact ⟨behind, rfl, foldlM_suffix (fun order b order' => visit_suffix _ order b) children⟩
    · cases h
      exact ⟨order, rfl, List.suffix_rfl⟩

theorem topologicalOrder_ordered (sinks : ∀ a, a ∉ nodes → next a = []) {roots order : List α}
    (h : topologicalOrder next nodes roots = .ok order) : Ordered next order ∧ roots ⊆ order := by
  have start : Ordered next [] := trivial
  have step := fun order a order' => @visit_ordered _ next nodes _ sinks [] order a order'
  obtain ⟨ordered, all, -⟩ := foldlM_extends step start h
  exact ⟨ordered, fun a root => all (List.mem_reverse.mpr root)⟩

theorem topologicalOrder_nodup {roots order : List α}
    (h : topologicalOrder next nodes roots = .ok order) : order.Nodup := by
  have step := fun order a order' => @visit_nodup _ next nodes _ [] order a order'
  exact (foldlM_invariant step ⟨List.nodup_nil, List.forall_mem_nil _⟩ h).1

/-- The walk lists what can be reached from its roots, and nothing else. -/
theorem mem_topologicalOrder (sinks : ∀ a, a ∉ nodes → next a = []) {roots order : List α}
    (h : topologicalOrder next nodes roots = .ok order) {b : α} :
    b ∈ order ↔ ∃ root ∈ roots, Relation.ReflTransGen (fun a b => b ∈ next a) root b := by
  constructor
  · intro member
    rcases mem_of_foldlM (fun order a order' => visit_reachable [] order a) h member with
      none | ⟨root, listed, path⟩
    · cases none
    · exact ⟨root, List.mem_reverse.mp listed, path⟩
  · rintro ⟨root, listed, path⟩
    obtain ⟨ordered, all⟩ := topologicalOrder_ordered sinks h
    induction path with
    | refl => exact all listed
    | tail _ edge ih => exact ordered.closed ih edge

theorem topologicalOrder_ok (acyclic : Acyclic next) (roots : List α) :
    ∃ order, topologicalOrder next nodes roots = .ok order :=
  exists_foldlM_eq_ok (fun a _ order => visit_ok acyclic [] order a (List.forall_mem_nil _)) []

/-- The walk from one root ends in front of it. -/
theorem topologicalOrder_single {root : α} {order : List α}
    (h : topologicalOrder next nodes [root] = .ok order) : ∃ rest, order = root :: rest := by
  obtain ⟨whole, visited, h⟩ := bind_eq_ok.mp h
  cases h
  obtain ⟨rest, rfl, -⟩ := visit_new List.not_mem_nil visited
  exact ⟨rest, rfl⟩

/-- Of the vertices that the edges of `root` lead to, one that no later one leads to is listed
before all later ones. -/
theorem topologicalOrder_siblings (sinks : ∀ a, a ∉ nodes → next a = []) {root b : α}
    {before behind order : List α} (h : topologicalOrder next nodes [root] = .ok order)
    (edges : next root = before ++ b :: behind)
    (apart : ∀ c ∈ behind, ¬ Relation.ReflTransGen (fun a b => b ∈ next a) c b) :
    ∃ front rest, order = front ++ b :: rest ∧ behind ⊆ rest := by
  have node : root ∈ nodes := by
    by_contra sink
    simp [sinks root sink] at edges
  obtain ⟨whole, visited, h⟩ := bind_eq_ok.mp h
  cases h
  rw [visit, if_neg List.not_mem_nil, if_neg List.not_mem_nil, if_pos node, edges,
    List.reverse_append, List.reverse_cons, List.append_assoc] at visited
  obtain ⟨listed, children, visited⟩ := bind_eq_ok.mp visited
  cases visited
  -- When the walk comes to `b`, it has listed all behind `b`, but not `b` itself.
  rw [List.foldlM_append] at children
  obtain ⟨first, later, children⟩ := bind_eq_ok.mp children
  rw [List.singleton_append, List.foldlM_cons] at children
  obtain ⟨second, here, earlier⟩ := bind_eq_ok.mp children
  have start : Ordered next [] := trivial
  have step := fun order a order' => @visit_ordered _ next nodes _ sinks [root] order a order'
  obtain ⟨-, all, -⟩ := foldlM_extends step start later
  have new : b ∉ first := by
    intro known
    rcases mem_of_foldlM (fun order a order' => visit_reachable [root] order a) later known with
      none | ⟨c, member, path⟩
    · cases none
    · exact apart c (List.mem_reverse.mp member) path
  obtain ⟨rest, rfl, kept⟩ := visit_new new here
  obtain ⟨front, rfl⟩ := foldlM_suffix (fun order a order' => visit_suffix _ order a) earlier
  exact ⟨root :: front, rest, rfl, fun c member => kept.mem (all (List.mem_reverse.mpr member))⟩

end Spreadsheet.Graph
