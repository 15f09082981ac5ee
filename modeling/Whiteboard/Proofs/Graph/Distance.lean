import Mathlib.Data.List.Dedup
import Mathlib.Data.Nat.Find
import Mathlib.Order.Bounds.Basic
import Whiteboard.Graph.Layers
import Whiteboard.Proofs.Graph.WellFormed

/-!
# Distances in graphs

The roots of a graph are its nodes without incoming edges, or its first node if there are none. The
breadth-first layers sort its nodes by their distance from the roots, which is the least number of
edges on a walk from one of them; what no walk leads to makes up the last layer
(`Graph.layered_layers`).
-/

namespace Whiteboard.Graph

variable {g : Graph} {id : String} {n k : Nat}

/-! ## Walks -/

/-- How many edges lead to an id. -/
def inDegree (g : Graph) (id : String) : Nat := g.edges.countP (·.target = id)

/-- What the search starts from. -/
inductive IsRoot (g : Graph) (id : String) : Prop where
  | entry : id ∈ g.nodeIds → g.inDegree id = 0 → IsRoot g id
  | first : (∀ id' ∈ g.nodeIds, g.inDegree id' ≠ 0) → g.nodeIds.head? = some id → IsRoot g id

/-- The walks of `n` edges. -/
inductive Walk (g : Graph) : Nat → String → String → Prop where
  | nil (id : String) : Walk g 0 id id
  | snoc {n : Nat} {start : String} {e : Edge} :
    Walk g n start e.source → e ∈ g.edges → Walk g (n + 1) start e.target

/-- Whether a walk of `n` edges leads from a root to an id. -/
def Reaches (g : Graph) (n : Nat) (id : String) : Prop := ∃ root, g.IsRoot root ∧ g.Walk n root id

/-- The least number of edges from a root to an id is `n`. -/
def IsDistance (g : Graph) (id : String) (n : Nat) : Prop := IsLeast {m | g.Reaches m id} n

theorem reaches_zero_iff : g.Reaches 0 id ↔ g.IsRoot id := by
  constructor
  · rintro ⟨root, hroot, hwalk⟩
    cases hwalk
    exact hroot
  · intro h
    exact ⟨id, h, .nil id⟩

theorem reaches_succ_iff :
    g.Reaches (n + 1) id ↔ ∃ e ∈ g.edges, g.Reaches n e.source ∧ e.target = id := by
  constructor
  · rintro ⟨root, hroot, hwalk⟩
    cases hwalk with
    | snoc hwalk he => exact ⟨_, he, ⟨root, hroot, hwalk⟩, rfl⟩
  · rintro ⟨e, he, ⟨root, hroot, hwalk⟩, rfl⟩
    exact ⟨root, hroot, hwalk.snoc he⟩

theorem IsDistance.not_reaches (h : g.IsDistance id n) (hk : k < n) : ¬ g.Reaches k id :=
  fun hreach => Nat.not_lt.mpr (h.2 hreach) hk

theorem isDistance_zero_iff : g.IsDistance id 0 ↔ g.IsRoot id :=
  ⟨fun h => reaches_zero_iff.mp h.1, fun h => ⟨reaches_zero_iff.mpr h, fun _ _ => Nat.zero_le _⟩⟩

/-- The last edge of a shortest walk starts at a node that is nearer by one. -/
theorem IsDistance.exists_edge (h : g.IsDistance id (n + 1)) :
    ∃ e ∈ g.edges, g.IsDistance e.source n ∧ e.target = id := by
  obtain ⟨e, he, hsource, rfl⟩ := reaches_succ_iff.mp h.1
  refine ⟨e, he, ⟨hsource, fun m hm => ?_⟩, rfl⟩
  have := h.2 (reaches_succ_iff.mpr ⟨e, he, hm, rfl⟩)
  omega

/-- There are nodes at all distances up to that of a node. -/
theorem IsDistance.exists_nearer (h : g.IsDistance id (k + n)) : ∃ id', g.IsDistance id' k := by
  induction n generalizing id with
  | zero => exact ⟨id, h⟩
  | succ n ih =>
    obtain ⟨e, -, hsource, -⟩ := IsDistance.exists_edge (n := k + n) h
    exact ih hsource

/-- What is reached has a distance. -/
theorem Reaches.exists_isDistance (h : g.Reaches n id) : ∃ m, g.IsDistance id m := by
  classical
  exact ⟨Nat.find ⟨n, h⟩, Nat.find_spec ⟨n, h⟩, fun _ hm => Nat.find_min' _ hm⟩

theorem IsRoot.mem_nodeIds (h : g.IsRoot id) : id ∈ g.nodeIds := by
  cases h with
  | entry h => exact h
  | first _ h => exact List.mem_of_head? h

theorem WellFormed.mem_of_reaches (hg : g.WellFormed) (h : g.Reaches n id) : id ∈ g.nodeIds := by
  cases n with
  | zero => exact (reaches_zero_iff.mp h).mem_nodeIds
  | succ n =>
    obtain ⟨e, he, -, rfl⟩ := reaches_succ_iff.mp h
    exact hg.target_mem e he

/-! ## Roots -/

theorem inDegree_eq_zero_iff : g.inDegree id = 0 ↔ id ∉ g.targets := by
  simp [inDegree, targets]

theorem mem_successors {id' : String} :
    id' ∈ g.successors id ↔ ∃ e ∈ g.edges, e.source = id ∧ e.target = id' := by
  simp [successors, and_assoc]

/-- The nodes without incoming edges. -/
def entries (g : Graph) : List String := g.nodeIds.filter (· ∉ g.targets)

theorem mem_entries_iff : id ∈ g.entries ↔ id ∈ g.nodeIds ∧ g.inDegree id = 0 := by
  simp [entries, inDegree_eq_zero_iff]

theorem roots_of_entries (h : g.entries ≠ []) : g.roots = g.entries := by
  unfold roots
  split
  · next hnone => exact absurd hnone h
  · rfl

theorem roots_of_no_entries (h : g.entries = []) : g.roots = g.nodeIds.take 1 := by
  unfold roots
  split
  · rfl
  · next hsome => exact absurd h hsome

theorem mem_roots_iff : id ∈ g.roots ↔ g.IsRoot id := by
  by_cases hnone : g.entries = []
  · have hdegree : ∀ id' ∈ g.nodeIds, g.inDegree id' ≠ 0 := fun id' hid' hzero =>
      List.ne_nil_of_mem (mem_entries_iff.mpr ⟨hid', hzero⟩) hnone
    have hhead : id ∈ g.nodeIds.take 1 ↔ g.nodeIds.head? = some id := by
      cases g.nodeIds <;> simp [eq_comm]
    rw [roots_of_no_entries hnone, hhead]
    constructor
    · exact .first hdegree
    · rintro (⟨hid, hzero⟩ | ⟨-, h⟩)
      · exact absurd hzero (hdegree id hid)
      · exact h
  · rw [roots_of_entries hnone, mem_entries_iff]
    constructor
    · rintro ⟨hid, hzero⟩
      exact .entry hid hzero
    · rintro (⟨hid, hzero⟩ | ⟨hdegree, -⟩)
      · exact ⟨hid, hzero⟩
      · obtain ⟨id', hid'⟩ := List.exists_mem_of_ne_nil _ hnone
        obtain ⟨hmem, hzero⟩ := mem_entries_iff.mp hid'
        exact absurd hzero (hdegree id' hmem)

theorem roots_ne_nil (h : g.nodes ≠ []) : g.roots ≠ [] := by
  by_cases hnone : g.entries = []
  · rw [roots_of_no_entries hnone]
    simpa [nodeIds] using h
  · rwa [roots_of_entries hnone]

theorem nodup_roots (h : g.nodeIds.Nodup) : g.roots.Nodup := by
  by_cases hnone : g.entries = []
  · rw [roots_of_no_entries hnone]
    exact h.sublist (List.take_sublist _ _)
  · rw [roots_of_entries hnone]
    exact h.filter _

/-! ## The search -/

/-- The search up to the nodes at distance `k`: they are the last layer, and what is at most as far
was visited. -/
structure Searched (g : Graph) (k : Nat) (visited layer : List String) : Prop where
  mem_visited_iff : ∀ id, id ∈ visited ↔ ∃ m ≤ k, g.Reaches m id
  mem_layer_iff : ∀ id, id ∈ layer ↔ g.IsDistance id k

variable {visited layer : List String}

theorem searched_roots (g : Graph) : g.Searched 0 g.roots g.roots where
  mem_visited_iff id := by
    rw [mem_roots_iff, ← reaches_zero_iff]
    simp
  mem_layer_iff id := by rw [mem_roots_iff, isDistance_zero_iff]

/-- What is found next is farther by one. -/
theorem Searched.mem_discovered_iff (h : g.Searched k visited layer) :
    id ∈ g.discovered visited layer ↔ g.IsDistance id (k + 1) := by
  rw [mem_discovered, h.mem_visited_iff]
  constructor
  · rintro ⟨⟨source, hsource, hid⟩, hnew⟩
    obtain ⟨e, he, rfl, rfl⟩ := mem_successors.mp hid
    have hreach := ((h.mem_layer_iff _).mp hsource).1
    refine ⟨reaches_succ_iff.mpr ⟨e, he, hreach, rfl⟩, fun m hm => ?_⟩
    by_contra hle
    exact hnew ⟨m, by omega, hm⟩
  · intro hid
    refine ⟨?_, fun ⟨m, hm, hreach⟩ => hid.not_reaches (Nat.lt_succ_of_le hm) hreach⟩
    obtain ⟨e, he, hsource, rfl⟩ := hid.exists_edge
    exact ⟨e.source, (h.mem_layer_iff _).mpr hsource, mem_successors.mpr ⟨e, he, rfl, rfl⟩⟩

theorem Searched.next (h : g.Searched k visited layer) :
    g.Searched (k + 1) (visited ++ g.discovered visited layer) (g.discovered visited layer) where
  mem_visited_iff id := by
    rw [List.mem_append, h.mem_discovered_iff, h.mem_visited_iff]
    constructor
    · rintro (⟨m, hm, hreach⟩ | hid)
      · exact ⟨m, by omega, hreach⟩
      · exact ⟨k + 1, le_rfl, hid.1⟩
    · rintro ⟨m, hm, hreach⟩
      obtain ⟨d, hd⟩ := hreach.exists_isDistance
      have hle := hd.2 hreach
      rcases Nat.lt_or_ge k d with hlt | hge
      · have : d = k + 1 := by omega
        exact .inr (this ▸ hd)
      · exact .inl ⟨d, hge, hd.1⟩
  mem_layer_iff _ := h.mem_discovered_iff

theorem layersBehind_of_nil (h : g.discovered visited layer = []) :
    g.layersBehind visited layer = [] := by
  rw [layersBehind]
  split
  · rfl
  · next heq => rw [h] at heq; cases heq

theorem layersBehind_of_ne_nil (h : g.discovered visited layer ≠ []) :
    g.layersBehind visited layer = g.discovered visited layer ::
      g.layersBehind (visited ++ g.discovered visited layer) (g.discovered visited layer) := by
  rw [layersBehind]
  split
  · next heq => exact absurd heq h
  · next heq => rw [heq]

/-- Induction along the search, as long as it finds anything. -/
theorem search_induction {P : List String → List String → Prop}
    (done : ∀ visited layer, g.discovered visited layer = [] → P visited layer)
    (more : ∀ visited layer, g.discovered visited layer ≠ [] →
      P (visited ++ g.discovered visited layer) (g.discovered visited layer) → P visited layer)
    (visited layer : List String) : P visited layer := by
  induction visited, layer using layersBehind.induct g with
  | case1 visited layer h => exact done visited layer h
  | case2 visited layer t rest h ih => exact more visited layer (by simp [h]) (h ▸ ih)

theorem layersBehind_ne_nil {l : List String} (h : l ∈ g.layersBehind visited layer) : l ≠ [] := by
  induction visited, layer using search_induction (g := g) with
  | done visited layer hnil =>
    rw [layersBehind_of_nil hnil] at h
    cases h
  | more visited layer hne ih =>
    rw [layersBehind_of_ne_nil hne] at h
    rcases List.mem_cons.mp h with rfl | h
    · exact hne
    · exact ih h

/-- The `n`-th layer behind the last one holds what is farther by `n + 1`. -/
theorem Searched.mem_layersBehind_iff (h : g.Searched k visited layer) :
    (∃ l, (g.layersBehind visited layer)[n]? = some l ∧ id ∈ l) ↔
      g.IsDistance id (k + 1 + n) := by
  induction visited, layer using search_induction (g := g) generalizing k n with
  | done visited layer hnil =>
    rw [layersBehind_of_nil hnil]
    constructor
    · rintro ⟨l, hl, -⟩
      cases hl
    · intro hid
      obtain ⟨id', hid'⟩ := hid.exists_nearer
      have hmem := h.mem_discovered_iff.mpr hid'
      rw [hnil] at hmem
      cases hmem
  | more visited layer hne ih =>
    rw [layersBehind_of_ne_nil hne]
    cases n with
    | zero => simp [h.mem_discovered_iff]
    | succ n =>
      rw [List.getElem?_cons_succ, ih h.next, Nat.add_right_comm (k + 1) 1 n, Nat.add_assoc]

theorem nodup_eraseDups {β : Type} [BEq β] [LawfulBEq β] : (l : List β) → l.eraseDups.Nodup
  | [] => List.nodup_nil
  | a :: l => by
    rw [List.eraseDups_cons, List.nodup_cons, List.mem_eraseDups, List.mem_filter]
    exact ⟨by simp, nodup_eraseDups _⟩
  termination_by l => l.length
  decreasing_by exact Nat.lt_succ_of_le (List.length_filter_le _ l)

/-- Nothing is found twice. -/
theorem nodup_visited_layersBehind (h : visited.Nodup) :
    (visited ++ (g.layersBehind visited layer).flatten).Nodup := by
  induction visited, layer using search_induction (g := g) with
  | done visited layer hnil => simpa [layersBehind_of_nil hnil] using h
  | more visited layer hne ih =>
    rw [layersBehind_of_ne_nil hne, List.flatten_cons, ← List.append_assoc]
    refine ih (h.append (nodup_eraseDups _) fun id hvisited hid => ?_)
    exact (mem_discovered.mp hid).2 hvisited

/-! ## Layers -/

/-- The layers that are reached hold what walks lead to, each by its distance. -/
theorem mem_reachedLayers_iff :
    (∃ l, g.reachedLayers[n]? = some l ∧ id ∈ l) ↔ g.IsDistance id n := by
  rw [reachedLayers]
  cases n with
  | zero => simp [mem_roots_iff, isDistance_zero_iff]
  | succ n =>
    rw [List.getElem?_cons_succ, (searched_roots g).mem_layersBehind_iff, Nat.zero_add,
      Nat.add_comm]

theorem mem_flatten_reachedLayers_iff :
    id ∈ g.reachedLayers.flatten ↔ ∃ n, g.Reaches n id := by
  rw [List.mem_flatten]
  constructor
  · rintro ⟨l, hl, hid⟩
    obtain ⟨n, hn⟩ := List.mem_iff_getElem?.mp hl
    exact ⟨n, (mem_reachedLayers_iff.mp ⟨l, hn, hid⟩).1⟩
  · rintro ⟨n, hreach⟩
    obtain ⟨d, hd⟩ := hreach.exists_isDistance
    obtain ⟨l, hl, hid⟩ := mem_reachedLayers_iff.mpr hd
    exact ⟨l, List.mem_of_getElem? hl, hid⟩

/-- The nodes to which no walk leads. -/
def unreached (g : Graph) : List String := g.nodeIds.filter (· ∉ g.reachedLayers.flatten)

theorem mem_unreached_iff : id ∈ g.unreached ↔ id ∈ g.nodeIds ∧ ∀ n, ¬ g.Reaches n id := by
  rw [unreached, List.mem_filter, decide_eq_true_iff, mem_flatten_reachedLayers_iff, not_exists]

theorem layers_eq (hne : g.nodes ≠ []) :
    g.layers = g.reachedLayers ++ if g.unreached = [] then [] else [g.unreached] := by
  rw [layers, if_neg (by simpa using hne), unreached]
  dsimp only
  split
  · next hnone => rw [if_pos hnone, List.append_nil]
  · next hsome => rw [if_neg hsome]

/-- The layers of a graph hold each node once. Those that walks lead to are sorted by their
distance, and the others make up the last layer. -/
structure Layered (g : Graph) (layers : List (List String)) : Prop where
  ne_nil : ∀ layer ∈ layers, layer ≠ []
  nodup : layers.flatten.Nodup
  perm : layers.flatten.Perm g.nodeIds
  of_reaches : ∀ n id, g.Reaches n id →
    ∃ d layer, g.IsDistance id d ∧ layers[d]? = some layer ∧ id ∈ layer
  last : (∃ id ∈ g.nodeIds, ∀ n, ¬ g.Reaches n id) → ∃ layer, layers.getLast? = some layer ∧
    ∀ id, id ∈ layer ↔ id ∈ g.nodeIds ∧ ∀ n, ¬ g.Reaches n id

/-- What was reached, and what was not, are all nodes. -/
theorem perm_reachedLayers (hg : g.WellFormed) :
    (g.reachedLayers.flatten ++ g.unreached).Perm g.nodeIds := by
  have hreached : g.reachedLayers.flatten.Nodup := nodup_visited_layersBehind (nodup_roots hg.nodup)
  have hdisjoint : g.reachedLayers.flatten.Disjoint g.unreached := by
    intro id hid hunreached
    obtain ⟨n, hreach⟩ := mem_flatten_reachedLayers_iff.mp hid
    exact (mem_unreached_iff.mp hunreached).2 n hreach
  have hunreached : g.unreached.Nodup := hg.nodup.filter _
  rw [List.perm_ext_iff_of_nodup (hreached.append hunreached hdisjoint) hg.nodup]
  intro id
  rw [List.mem_append, mem_flatten_reachedLayers_iff, mem_unreached_iff]
  constructor
  · rintro (⟨n, hreach⟩ | ⟨hid, -⟩)
    · exact hg.mem_of_reaches hreach
    · exact hid
  · intro hid
    rcases Classical.em (∃ n, g.Reaches n id) with hreach | hnone
    · exact .inl hreach
    · exact .inr ⟨hid, not_exists.mp hnone⟩

theorem layered_layers (hg : g.WellFormed) (hne : g.nodes ≠ []) : g.Layered g.layers := by
  rw [layers_eq hne]
  have hflatten : (g.reachedLayers ++ if g.unreached = [] then [] else [g.unreached]).flatten
      = g.reachedLayers.flatten ++ g.unreached := by
    split <;> simp_all
  have hperm := perm_reachedLayers hg
  rw [← hflatten] at hperm
  refine ⟨?_, hperm.nodup_iff.mpr hg.nodup, hperm, ?_, ?_⟩
  · intro layer hlayer
    rcases List.mem_append.mp hlayer with hlayer | hlayer
    · rcases List.mem_cons.mp hlayer with rfl | hlayer
      · exact roots_ne_nil hne
      · exact layersBehind_ne_nil hlayer
    · split at hlayer
      · cases hlayer
      · next hsome => exact List.mem_singleton.mp hlayer ▸ hsome
  · intro n id hreach
    obtain ⟨d, hd⟩ := hreach.exists_isDistance
    obtain ⟨l, hl, hid⟩ := mem_reachedLayers_iff.mpr hd
    obtain ⟨hlt, -⟩ := List.getElem?_eq_some_iff.mp hl
    exact ⟨d, l, hd, (List.getElem?_append_left hlt).trans hl, hid⟩
  · rintro ⟨id, hid, hnone⟩
    have hsome : g.unreached ≠ [] := List.ne_nil_of_mem (mem_unreached_iff.mpr ⟨hid, hnone⟩)
    refine ⟨g.unreached, ?_, fun id => mem_unreached_iff⟩
    rw [if_neg hsome, List.getLast?_concat]

end Whiteboard.Graph
