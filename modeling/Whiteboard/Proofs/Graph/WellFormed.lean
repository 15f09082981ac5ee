import Mathlib.Data.List.Nodup
import Whiteboard.Graph.Finding

/-!
# Well-formed graphs

The ids of the nodes are distinct, and edges join nodes. The operations that build a graph keep it
so and only add to it, and a graph with nodes is well formed exactly if no finding on it is an error
(`Graph.wellFormed_iff_findings`).
-/

namespace Whiteboard

namespace Graph

/-- No two nodes share an id, and every edge joins nodes. -/
@[mk_iff]
structure WellFormed (g : Graph) : Prop where
  nodup : g.nodeIds.Nodup
  source_mem : ∀ e ∈ g.edges, e.source ∈ g.nodeIds
  target_mem : ∀ e ∈ g.edges, e.target ∈ g.nodeIds

instance (g : Graph) : Decidable g.WellFormed := decidable_of_iff' _ (wellFormed_iff g)

variable {g : Graph}

theorem wellFormed_empty : empty.WellFormed := by
  constructor <;> simp [empty, nodeIds]

/-! ## Adding nodes and edges -/

theorem hasNode_iff {id : String} : g.hasNode id = true ↔ id ∈ g.nodeIds := by
  simp [hasNode, node?, nodeIds]

theorem nodes_ne_nil_of_mem {id : String} (h : id ∈ g.nodeIds) : g.nodes ≠ [] := by
  obtain ⟨n, hn, -⟩ := List.mem_map.mp h
  exact List.ne_nil_of_mem hn

theorem addNode_of_mem {n : Node} (h : n.id ∈ g.nodeIds) : g.addNode n = g :=
  if_pos (hasNode_iff.mpr h)

theorem addNode_of_not_mem {n : Node} (h : n.id ∉ g.nodeIds) :
    g.addNode n = { g with nodes := g.nodes ++ [n] } :=
  if_neg (mt hasNode_iff.mp h)

@[simp] theorem edges_addNode (n : Node) : (g.addNode n).edges = g.edges := by
  unfold addNode
  split <;> rfl

@[simp] theorem edges_foldl_addNode (ns : List Node) : (ns.foldl addNode g).edges = g.edges := by
  induction ns generalizing g with
  | nil => rfl
  | cons n ns ih => rw [List.foldl_cons, ih, edges_addNode]

@[simp] theorem edges_ensureNode (id : String) : (g.ensureNode id).edges = g.edges :=
  edges_addNode _

@[simp] theorem edges_addEdge (e : Edge) : (g.addEdge e).edges = g.edges ++ [e] := rfl

theorem mem_nodeIds_addNode {id : String} {n : Node} :
    id ∈ (g.addNode n).nodeIds ↔ id ∈ g.nodeIds ∨ id = n.id := by
  by_cases h : n.id ∈ g.nodeIds
  · rw [addNode_of_mem h]
    exact ⟨.inl, fun hid => hid.elim (fun h => h) fun heq => heq ▸ h⟩
  · rw [addNode_of_not_mem h]
    simp [nodeIds]

theorem mem_nodeIds_ensureNode {id id' : String} :
    id ∈ (g.ensureNode id').nodeIds ↔ id ∈ g.nodeIds ∨ id = id' :=
  mem_nodeIds_addNode

theorem nodup_addNode (h : g.nodeIds.Nodup) (n : Node) : (g.addNode n).nodeIds.Nodup := by
  by_cases hn : n.id ∈ g.nodeIds
  · rwa [addNode_of_mem hn]
  · rw [addNode_of_not_mem hn]
    simpa [nodeIds] using List.Nodup.append h (List.nodup_singleton _)
      (List.disjoint_singleton.mpr hn)

theorem nodup_foldl_addNode (h : g.nodeIds.Nodup) (ns : List Node) :
    (ns.foldl addNode g).nodeIds.Nodup := by
  induction ns generalizing g with
  | nil => exact h
  | cons n ns ih => exact ih (nodup_addNode h n)

theorem isPrefix_addNode (g : Graph) (n : Node) : g.nodes <+: (g.addNode n).nodes := by
  unfold addNode
  split
  · exact List.prefix_rfl
  · exact List.prefix_append _ _

theorem isPrefix_foldl_addNode (g : Graph) (ns : List Node) :
    g.nodes <+: (ns.foldl addNode g).nodes := by
  induction ns generalizing g with
  | nil => exact List.prefix_rfl
  | cons n ns ih => exact (isPrefix_addNode g n).trans (ih _)

theorem ensureNode_addEdge (g : Graph) (e : Edge) (id : String) :
    (g.addEdge e).ensureNode id = (g.ensureNode id).addEdge e := by
  by_cases h : id ∈ g.nodeIds
  · rw [ensureNode, ensureNode, addNode_of_mem (g := g) h, addNode_of_mem (g := g.addEdge e) h]
  · rw [ensureNode, ensureNode, addNode_of_not_mem (g := g) h,
      addNode_of_not_mem (g := g.addEdge e) h]
    rfl

/-- Which nodes are added depends on the nodes that are there. -/
theorem nodes_foldl_addNode_congr {h : Graph} (hnodes : g.nodes = h.nodes) (ns : List Node) :
    (ns.foldl addNode g).nodes = (ns.foldl addNode h).nodes := by
  induction ns generalizing g h with
  | nil => exact hnodes
  | cons n ns ih =>
    apply ih
    by_cases hn : n.id ∈ g.nodeIds
    · have hn' : n.id ∈ h.nodeIds := by rwa [nodeIds, ← hnodes]
      rw [addNode_of_mem hn, addNode_of_mem hn', hnodes]
    · have hn' : n.id ∉ h.nodeIds := by rwa [nodeIds, ← hnodes]
      rw [addNode_of_not_mem hn, addNode_of_not_mem hn', hnodes]

@[simp] theorem direction_foldl_addNode (ns : List Node) :
    (ns.foldl addNode g).direction = g.direction := by
  induction ns generalizing g with
  | nil => rfl
  | cons n ns ih =>
    rw [List.foldl_cons, ih, addNode]
    split <;> rfl

theorem node?_addNode (g : Graph) (n : Node) (id : String) :
    (g.addNode n).node? id = (g.node? id).or (if n.id = id then some n else none) := by
  by_cases hn : n.id ∈ g.nodeIds
  · rw [addNode_of_mem hn]
    split
    · next hid =>
      subst hid
      obtain ⟨m, hm⟩ := Option.isSome_iff_exists.mp (hasNode_iff.mpr hn)
      rw [hm, Option.some_or]
    · rw [Option.or_none]
  · rw [addNode_of_not_mem hn, node?, List.find?_append, List.find?_singleton, node?]
    simp only [beq_iff_eq]

/-- Of several nodes with an id the first one stays. -/
theorem node?_foldl_addNode (g : Graph) (ns : List Node) (id : String) :
    (ns.foldl addNode g).node? id = (g.node? id).or (ns.find? (·.id == id)) := by
  induction ns generalizing g with
  | nil => exact (Option.or_none ..).symm
  | cons n ns ih =>
    rw [List.foldl_cons, ih, node?_addNode, Option.or_assoc, List.find?_cons]
    by_cases hid : n.id = id
    · rw [if_pos hid, beq_iff_eq.mpr hid, Option.some_or]
    · rw [if_neg hid, beq_false_of_ne hid, Option.none_or]

theorem node?_of_mem (h : g.nodeIds.Nodup) {n : Node} (hn : n ∈ g.nodes) :
    g.node? n.id = some n := by
  obtain ⟨m, hm⟩ := Option.isSome_iff_exists.mp
    (hasNode_iff.mpr (List.mem_map_of_mem (f := Node.id) hn))
  have hid : m.id = n.id := by simpa using List.find?_some hm
  rw [hm, List.inj_on_of_nodup_map h (List.mem_of_find?_eq_some hm) hn hid]

theorem foldl_addNode_of_nodup {ns : List Node}
    (h : (g.nodeIds ++ ns.map (·.id)).Nodup) :
    ns.foldl addNode g = { g with nodes := g.nodes ++ ns } := by
  induction ns generalizing g with
  | nil => simp
  | cons n ns ih =>
    have hnew : n.id ∉ g.nodeIds := fun hmem =>
      (List.nodup_append.mp h).2.2 _ hmem _ List.mem_cons_self rfl
    rw [List.foldl_cons, addNode_of_not_mem hnew, ih]
    · simp
    · simpa [nodeIds] using h

theorem foldl_addEdge (g : Graph) (es : List Edge) :
    es.foldl addEdge g = { g with edges := g.edges ++ es } := by
  induction es generalizing g with
  | nil => simp
  | cons e es ih => simp [ih, addEdge]

@[simp] theorem nodes_foldl_addEdge (es : List Edge) : (es.foldl addEdge g).nodes = g.nodes := by
  rw [foldl_addEdge]

namespace WellFormed

theorem addNode (h : g.WellFormed) (n : Node) : (g.addNode n).WellFormed where
  nodup := nodup_addNode h.nodup n
  source_mem e he := mem_nodeIds_addNode.mpr (.inl (h.source_mem e (by simpa using he)))
  target_mem e he := mem_nodeIds_addNode.mpr (.inl (h.target_mem e (by simpa using he)))

theorem ensureNode (h : g.WellFormed) (id : String) : (g.ensureNode id).WellFormed := h.addNode _

theorem addEdge (h : g.WellFormed) {e : Edge} (hs : e.source ∈ g.nodeIds)
    (ht : e.target ∈ g.nodeIds) : (g.addEdge e).WellFormed where
  nodup := h.nodup
  source_mem := List.forall_mem_append.mpr ⟨h.source_mem, List.forall_mem_singleton.mpr hs⟩
  target_mem := List.forall_mem_append.mpr ⟨h.target_mem, List.forall_mem_singleton.mpr ht⟩

end WellFormed

/-! ## Graphs with one edge -/

/-- An edge and its ends, beside nodes that stand before them. -/
def ofEdge (ns : List Node) (e : Edge) : Graph :=
  (((ns.foldl addNode empty).ensureNode e.source).ensureNode e.target).addEdge e

theorem nodes_ofEdge_ne_nil (ns : List Node) (e : Edge) : (ofEdge ns e).nodes ≠ [] := by
  have hmem : e.target ∈ (ofEdge ns e).nodeIds := mem_nodeIds_ensureNode.mpr (.inr rfl)
  exact nodes_ne_nil_of_mem hmem

theorem ofEdge_nil (e : Edge) : ofEdge [] e =
    { nodes := if e.source = e.target then [.bare e.source] else [.bare e.source, .bare e.target],
      edges := [e] } := by
  have hsource : empty.ensureNode e.source = { nodes := [.bare e.source] } := rfl
  rw [ofEdge, List.foldl_nil, hsource]
  split
  · next h =>
    rw [ensureNode, addNode_of_mem (by simp [nodeIds, Node.bare, h])]
    rfl
  · next h =>
    rw [ensureNode, addNode_of_not_mem (by simpa [nodeIds, Node.bare] using Ne.symm h)]
    rfl

/-! ## Errors among the findings -/

theorem repeatedIds_eq_nil_iff (seen : List String) (ns : List Node) :
    repeatedIds seen ns = [] ↔ (ns.map (·.id)).Nodup ∧ ∀ n ∈ ns, n.id ∉ seen := by
  induction ns generalizing seen with
  | nil => simp [repeatedIds]
  | cons n ns ih =>
    rw [repeatedIds, List.append_eq_nil_iff, ih, List.map_cons, List.nodup_cons,
      List.forall_mem_cons]
    have hhead : (if n.id ∈ seen then [Finding.repeatedId n.id] else []) = [] ↔ n.id ∉ seen := by
      simp
    have htail : (∀ m ∈ ns, m.id ∉ n.id :: seen) ↔
        n.id ∉ ns.map (·.id) ∧ ∀ m ∈ ns, m.id ∉ seen := by
      simp only [List.mem_cons, not_or, forall_and, List.mem_map, not_exists, not_and]
    rw [hhead, htail]
    tauto

theorem severity_of_mem_repeatedIds {seen : List String} {ns : List Node} {f : Finding}
    (h : f ∈ repeatedIds seen ns) : f.severity = .error := by
  induction ns generalizing seen with
  | nil => cases h
  | cons n ns ih =>
    rcases List.mem_append.mp h with h | h
    · split at h
      · rw [List.mem_singleton.mp h]
        rfl
      · cases h
    · exact ih h

theorem forall_edgeFindings_iff {ids : List String} {seen : List (String × String)} {i : Nat}
    {e : Edge} : (∀ f ∈ edgeFindings ids seen i e, f.severity ≠ .error) ↔
      e.source ∈ ids ∧ e.target ∈ ids := by
  by_cases hs : e.source ∈ ids <;> by_cases ht : e.target ∈ ids <;>
    simp only [edgeFindings, hs, ht, if_true, if_false, List.nil_append, List.forall_mem_append,
      List.forall_mem_singleton, Finding.severity, ne_eq, not_true, false_and, and_false, and_self]
  -- both ends are nodes: only loops and parallel edges are left to find
  constructor <;> split <;> simp

theorem forall_edgesFindings_iff {ids : List String} {seen : List (String × String)} {i : Nat}
    {es : List Edge} : (∀ f ∈ edgesFindings ids seen i es, f.severity ≠ .error) ↔
      ∀ e ∈ es, e.source ∈ ids ∧ e.target ∈ ids := by
  induction es generalizing seen i with
  | nil => simp [edgesFindings]
  | cons e es ih =>
    rw [edgesFindings, List.forall_mem_append, forall_edgeFindings_iff, ih, List.forall_mem_cons]

/-- Repeated ids and edges to ids without a node are the only errors. -/
theorem wellFormed_iff_findings (hne : g.nodes ≠ []) :
    g.WellFormed ↔ ∀ f ∈ g.findings, f.severity ≠ .error := by
  have hrepeated : (∀ f ∈ repeatedIds [] g.nodes, f.severity ≠ .error) ↔ g.nodeIds.Nodup := by
    have hnil : repeatedIds [] g.nodes = [] ↔ g.nodeIds.Nodup := by
      simpa [nodeIds] using repeatedIds_eq_nil_iff [] g.nodes
    rw [← hnil, List.eq_nil_iff_forall_not_mem]
    exact forall₂_congr fun f hf => by simp [severity_of_mem_repeatedIds hf]
  have hunconnected : ∀ f ∈ (if g.unconnectedIds.isEmpty || g.edges.isEmpty then []
      else [Finding.unconnected g.unconnectedIds]), f.severity ≠ .error := by
    split <;> simp [Finding.severity]
  rw [findings, if_neg (by simpa using hne)]
  simp only [List.forall_mem_append, hrepeated, forall_edgesFindings_iff]
  exact ⟨fun h => ⟨⟨h.nodup, fun e he => ⟨h.source_mem e he, h.target_mem e he⟩⟩, hunconnected⟩,
    fun h => ⟨h.1.1, fun e he => (h.1.2 e he).1, fun e he => (h.1.2 e he).2⟩⟩

end Graph

end Whiteboard
