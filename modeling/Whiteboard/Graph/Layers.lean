import Whiteboard.Graph

/-!
# Layers

Breadth-first layers of a graph: the first layer holds the nodes without incoming edges, or the
first node if there are none, and each further layer what edges reach from the one before and no
earlier layer holds. Nodes that are not reached form a last layer.
-/

namespace Whiteboard.Graph

/-- The ends of all edges. -/
def targets (g : Graph) : List String := g.edges.map (·.target)

/-- The ends of the edges from a node, in the order of edges. -/
def successors (g : Graph) (id : String) : List String :=
  (g.edges.filter (·.source == id)).map (·.target)

/-- The starts of the edges to a node, in the order of edges. -/
def predecessors (g : Graph) (id : String) : List String :=
  (g.edges.filter (·.target == id)).map (·.source)

/-- The nodes without incoming edges or, failing these, the first node. -/
def roots (g : Graph) : List String :=
  match g.nodeIds.filter (· ∉ g.targets) with
  | [] => g.nodeIds.take 1
  | ids => ids

/-- What edges reach from a layer and was not visited, in the order of discovery. -/
def discovered (g : Graph) (visited layer : List String) : List String :=
  ((layer.flatMap g.successors).filter (· ∉ visited)).eraseDups

/-- The targets that were not visited. -/
def remaining (g : Graph) (visited : List String) : List String := g.targets.filter (· ∉ visited)

theorem mem_targets_of_mem_successors {g : Graph} {id t : String} (h : t ∈ g.successors id) :
    t ∈ g.targets := by
  simp only [successors, List.mem_map, List.mem_filter] at h
  obtain ⟨e, ⟨he, _⟩, rfl⟩ := h
  exact List.mem_map_of_mem he

theorem mem_discovered {g : Graph} {visited layer : List String} {t : String} :
    t ∈ g.discovered visited layer ↔ (∃ id ∈ layer, t ∈ g.successors id) ∧ t ∉ visited := by
  simp [discovered]

/-- Visiting more leaves no more. -/
theorem filter_length_le (l visited more : List String) :
    (l.filter (· ∉ visited ++ more)).length ≤ (l.filter (· ∉ visited)).length := by
  induction l with
  | nil => simp
  | cons a l ih => grind

/-- Visiting a target that was not visited leaves fewer. -/
theorem filter_length_lt {l visited more : List String} {t : String} (ht : t ∈ l)
    (hm : t ∈ more) (hv : t ∉ visited) :
    (l.filter (· ∉ visited ++ more)).length < (l.filter (· ∉ visited)).length := by
  induction l with
  | nil => simp at ht
  | cons a l ih =>
    have := filter_length_le l visited more
    grind

theorem remaining_lt {g : Graph} {visited layer : List String} {t : String} {rest : List String}
    (h : g.discovered visited layer = t :: rest) :
    (g.remaining (visited ++ t :: rest)).length < (g.remaining visited).length := by
  have ht : t ∈ g.discovered visited layer := by simp [h]
  obtain ⟨⟨id, _, hs⟩, hv⟩ := mem_discovered.mp ht
  exact filter_length_lt (mem_targets_of_mem_successors hs) (by simp) hv

/-- The layers behind `layer`; `visited` holds it and all before it. -/
def layersBehind (g : Graph) (visited layer : List String) : List (List String) :=
  match _h : g.discovered visited layer with
  | [] => []
  | t :: rest => (t :: rest) :: layersBehind g (visited ++ t :: rest) (t :: rest)
  termination_by (g.remaining visited).length
  decreasing_by exact remaining_lt ‹_›

/-- The layers that are reached from the roots. -/
def reachedLayers (g : Graph) : List (List String) := g.roots :: g.layersBehind g.roots g.roots

/-- All layers of a graph. -/
def layers (g : Graph) : List (List String) :=
  if g.nodes.isEmpty then []
  else
    let reached := g.reachedLayers
    match g.nodeIds.filter (· ∉ reached.flatten) with
    | [] => reached
    | unreached => reached ++ [unreached]

end Whiteboard.Graph
