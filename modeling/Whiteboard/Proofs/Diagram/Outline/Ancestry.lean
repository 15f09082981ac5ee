import Std.Data.String.ToNat
import Whiteboard.Graph.Layout
import Whiteboard.Proofs.Diagram.WellFormed
import Whiteboard.Proofs.Graph.Distance

/-!
# The forest of an outline

An edge leads to each item of an outline from the last one above it that is less deep. The chain of
items that the reader keeps tells this item for any level that a further item may have
(`Outline.Progress.Follows`), so the edges are told by the levels alone, and levels rise along them
(`Outline.forest_of_parse`).
-/

namespace Whiteboard

namespace Graph

variable {g : Graph}

/-! ## Forests -/

/-- At most one edge leads to each id, and no walk leads back to where it starts. -/
structure IsForest (g : Graph) : Prop where
  nodup : g.targets.Nodup
  acyclic : ∀ n id, ¬ g.Walk (n + 1) id id

/-- What rises along edges rises along walks. -/
theorem Walk.rank_lt {rank : String → Int} (h : ∀ e ∈ g.edges, rank e.source < rank e.target)
    {n : Nat} {start id : String} (hwalk : g.Walk (n + 1) start id) : rank start < rank id := by
  induction n generalizing id with
  | zero =>
    cases hwalk with
    | snoc hwalk he =>
      cases hwalk
      exact h _ he
  | succ n ih =>
    cases hwalk with
    | snoc hwalk he => exact (ih hwalk).trans (h _ he)

end Graph

namespace Diagram.Outline

open Whiteboard.Graph

variable {p : Progress} {levels : List Int} {level : Int} {i j : Nat}
  {items : List (Nat × List Char)}

/-! ## Ids of items -/

/-- The id of the item at an index. -/
def itemId (i : Nat) : String := s!"node{i}"

theorem itemId_injective : Function.Injective itemId := by
  intro i j h
  have htext := congrArg String.toList h
  simp only [itemId, String.toList_append, List.append_right_inj] at htext
  exact Nat.repr_injective (String.toList_injective htext)

/-! ## The item that another belongs to -/

/-- The last index at which a list of levels is below a level. -/
def lastBelow? (levels : List Int) (level : Int) : Option Nat :=
  (levels.zipIdx.reverse.find? (·.1 < level)).map (·.2)

@[simp] theorem lastBelow?_nil : lastBelow? [] level = none := rfl

theorem lastBelow?_concat (levels : List Int) (a level : Int) : lastBelow? (levels ++ [a]) level
    = if a < level then some levels.length else lastBelow? levels level := by
  rw [lastBelow?, List.zipIdx_append, List.reverse_append, List.zipIdx_singleton,
    List.reverse_singleton, List.singleton_append, List.find?_cons]
  by_cases h : a < level <;> simp [h, lastBelow?]

theorem lastBelow?_eq_some_iff : lastBelow? levels level = some i ↔
    (∃ l, levels[i]? = some l ∧ l < level) ∧ ∀ k l, i < k → levels[k]? = some l → level ≤ l := by
  induction levels using List.reverseRecOn with
  | nil => simp
  | append_singleton levels a ih =>
    have hlast : (levels ++ [a])[levels.length]? = some a := by simp
    rw [lastBelow?_concat]
    split
    · next ha =>
      rw [Option.some.injEq]
      constructor
      · rintro rfl
        refine ⟨⟨a, hlast, ha⟩, ?_⟩
        intro k l hk hl
        have := (List.getElem?_eq_some_iff.mp hl).1
        rw [List.length_append, List.length_singleton] at this
        omega
      · rintro ⟨⟨l, hl, -⟩, hbehind⟩
        have hi := (List.getElem?_eq_some_iff.mp hl).1
        rw [List.length_append, List.length_singleton] at hi
        by_contra hne
        have := hbehind levels.length a (by omega) hlast
        omega
    · next ha =>
      rw [ih]
      constructor
      · rintro ⟨⟨l, hl, hlt⟩, hbehind⟩
        refine ⟨⟨l, by rw [List.getElem?_append_left (List.getElem?_eq_some_iff.mp hl).1, hl], hlt⟩,
          ?_⟩
        intro k l' hk hl'
        rw [List.getElem?_append] at hl'
        split at hl'
        · exact hbehind k l' hk hl'
        · rw [List.mem_singleton.mp (List.mem_of_getElem? hl')]
          omega
      · rintro ⟨⟨l, hl, hlt⟩, hbehind⟩
        rw [List.getElem?_append] at hl
        split at hl
        · next hi =>
          refine ⟨⟨l, hl, hlt⟩, ?_⟩
          intro k l' hk hl'
          refine hbehind k l' hk ?_
          rw [List.getElem?_append_left (List.getElem?_eq_some_iff.mp hl').1, hl']
        · rw [List.mem_singleton.mp (List.mem_of_getElem? hl)] at hlt
          exact absurd hlt ha

/-- The `i`-th item is the last one before the `j`-th that is less deep. -/
def IsParent (levels : List Int) (i j : Nat) : Prop :=
  ∃ l m, levels[i]? = some l ∧ levels[j]? = some m ∧ i < j ∧ l < m ∧
    ∀ k l', i < k → k < j → levels[k]? = some l' → m ≤ l'

/-- The item that the `j`-th one belongs to. -/
def parent? (levels : List Int) (j : Nat) : Option Nat :=
  levels[j]?.bind (lastBelow? (levels.take j))

theorem parent?_eq_some_iff : parent? levels j = some i ↔ IsParent levels i j := by
  simp only [parent?, Option.bind_eq_some_iff, lastBelow?_eq_some_iff, List.getElem?_take,
    Option.ite_none_right_eq_some]
  constructor
  · rintro ⟨m, hm, ⟨l, ⟨hij, hl⟩, hlt⟩, hbetween⟩
    exact ⟨l, m, hl, hm, hij, hlt, fun k l' hik hkj hl' => hbetween k l' hik ⟨hkj, hl'⟩⟩
  · rintro ⟨l, m, hl, hm, hij, hlt, hbetween⟩
    exact ⟨m, hm, ⟨l, ⟨hij, hl⟩, hlt⟩, fun k l' hik hl' => hbetween k l' hik hl'.1 hl'.2⟩

/-- An edge to each item from the one that it belongs to, if there is one. -/
def links (levels : List Int) : List Edge :=
  (List.range levels.length).filterMap fun j =>
    (parent? levels j).map fun i => { source := itemId i, target := itemId j }

theorem mem_links_iff :
    { source := itemId i, target := itemId j } ∈ links levels ↔ parent? levels j = some i := by
  simp only [links, List.mem_filterMap, List.mem_range, Option.map_eq_some_iff, Edge.mk.injEq,
    itemId_injective.eq_iff, and_true]
  constructor
  · rintro ⟨j', -, i', h, rfl, rfl⟩
    exact h
  · intro h
    obtain ⟨-, m, -, hm, -⟩ := parent?_eq_some_iff.mp h
    exact ⟨j, (List.getElem?_eq_some_iff.mp hm).1, i, h, rfl, rfl⟩

/-- A further item leaves the edges to those before it. -/
theorem links_concat (levels : List Int) (level : Int) : links (levels ++ [level])
    = links levels ++ ((lastBelow? levels level).map fun i =>
      { source := itemId i, target := itemId levels.length }).toList := by
  have hbefore : ∀ j ∈ List.range levels.length,
      parent? (levels ++ [level]) j = parent? levels j := by
    intro j hj
    have hj := List.mem_range.mp hj
    rw [parent?, parent?, List.getElem?_append_left hj, List.take_append_of_le_length hj.le]
  have hlast : parent? (levels ++ [level]) levels.length = lastBelow? levels level := by
    simp [parent?]
  rw [links, List.length_append, List.length_singleton, List.range_succ, List.filterMap_append,
    links]
  congr 1
  · exact List.filterMap_congr fun j hj => by rw [hbefore j hj]
  · rw [List.filterMap_cons, hlast]
    cases lastBelow? levels level <;> rfl

theorem ancestors_ancestors {a b : Nat} (h : a ≤ b) (chain : List (String × Nat)) :
    ancestors a (ancestors b chain) = ancestors a chain := by
  induction chain with
  | nil => rfl
  | cons item chain ih =>
    by_cases hb : b ≤ item.2
    · have ha : a ≤ item.2 := h.trans hb
      have hdropb : ancestors b (item :: chain) = ancestors b chain :=
        List.dropWhile_cons_of_pos (by simpa using hb)
      have hdropa : ancestors a (item :: chain) = ancestors a chain :=
        List.dropWhile_cons_of_pos (by simpa using ha)
      rw [hdropb, hdropa, ih]
    · have hkeep : ancestors b (item :: chain) = item :: chain :=
        List.dropWhile_cons_of_neg (by simpa using hb)
      rw [hkeep]

/-! ## Reading items -/

/-- The node of an item, the `n`-th one. -/
def itemNode (n : Nat) (item : Nat × List Char) : Node :=
  nodeOf n (item.1 / 2) (String.ofList (Text.trim item.2))

/-- The nodes of a list of items. -/
def nodesOf (items : List (Nat × List Char)) : List Node :=
  items.zipIdx.map fun (item, n) => itemNode n item

theorem nodesOf_concat (items : List (Nat × List Char)) (item : Nat × List Char) :
    nodesOf (items ++ [item]) = nodesOf items ++ [itemNode items.length item] := by
  simp [nodesOf, List.zipIdx_append]

@[simp] theorem length_nodesOf (items : List (Nat × List Char)) :
    (nodesOf items).length = items.length := by
  simp [nodesOf]

/-- What a node has of its item, wherever that stands. -/
theorem map_nodesOf {β : Type} {f : Node → β} (k : Nat × List Char → β)
    (h : ∀ n item, f (itemNode n item) = k item) (items : List (Nat × List Char)) :
    (nodesOf items).map f = items.map k := by
  induction items using List.reverseRecOn with
  | nil => rfl
  | append_singleton items item ih =>
    rw [nodesOf_concat, List.map_append, ih, List.map_append, List.map_singleton, h,
      List.map_singleton]

/-- The ids of the nodes count the items. -/
theorem map_id_nodesOf (items : List (Nat × List Char)) :
    (nodesOf items).map (·.id) = (List.range items.length).map itemId := by
  induction items using List.reverseRecOn with
  | nil => rfl
  | append_singleton items item ih =>
    rw [nodesOf_concat, List.map_append, ih, List.length_append, List.length_singleton,
      List.range_succ, List.map_append]
    rfl

theorem nodes_add (p : Progress) (item : Nat × List Char) : (p.add item.1 item.2).graph.nodes
    = (p.graph.addNode (itemNode p.graph.nodes.length item)).nodes := by
  unfold Progress.add
  dsimp only
  cases ancestors (item.1 / 2) p.chain <;> rfl

theorem edges_add (p : Progress) (item : Nat × List Char) : (p.add item.1 item.2).graph.edges
    = p.graph.edges ++ ((ancestors (item.1 / 2) p.chain).head?.map fun ancestor =>
      { source := ancestor.1, target := itemId p.graph.nodes.length }).toList := by
  unfold Progress.add
  dsimp only
  cases ancestors (item.1 / 2) p.chain with
  | nil => simp
  | cons ancestor rest =>
    rw [edges_addEdge, edges_addNode]
    rfl

theorem chain_add (p : Progress) (item : Nat × List Char) : (p.add item.1 item.2).chain
    = (itemId p.graph.nodes.length, item.1 / 2) :: ancestors (item.1 / 2) p.chain := rfl

theorem nodup_map_itemId (n : Nat) : ((List.range n).map itemId).Nodup :=
  List.nodup_range.map itemId_injective

/-- What was read of a list of items: their nodes, the edges that the levels of these tell, and a
chain in which the item that a further one belongs to is found, whatever its level. -/
structure Progress.Follows (p : Progress) (items : List (Nat × List Char)) : Prop where
  nodes : p.graph.nodes = nodesOf items
  edges : p.graph.edges = links ((nodesOf items).map Node.depth)
  chain : ∀ level : Nat, (ancestors level p.chain).head?.map (·.1)
    = (lastBelow? ((nodesOf items).map Node.depth) level).map itemId

theorem Progress.follows_nil : ({} : Progress).Follows [] := ⟨rfl, rfl, fun _ => rfl⟩

/-- The items that a new one takes off the chain are not less deep than it, so they are no parents
of those that it is not the parent of. -/
theorem Progress.Follows.add (h : p.Follows items) (item : Nat × List Char) :
    (p.add item.1 item.2).Follows (items ++ [item]) := by
  have hlength : p.graph.nodes.length = items.length := by rw [h.nodes, length_nodesOf]
  have hfresh : (itemNode items.length item).id ∉ p.graph.nodeIds := by
    intro hmem
    rw [nodeIds, h.nodes, map_id_nodesOf] at hmem
    obtain ⟨n, hn, hid⟩ := List.mem_map.mp hmem
    exact absurd (List.mem_range.mp hn) (itemId_injective hid).ge.not_gt
  have hdepths : (nodesOf (items ++ [item])).map Node.depth
      = (nodesOf items).map Node.depth ++ [((item.1 / 2 : Nat) : Int)] := by
    rw [nodesOf_concat, List.map_append]
    rfl
  constructor
  · rw [nodes_add, hlength, addNode_of_not_mem hfresh, nodesOf_concat, ← h.nodes]
  · have hparent : (ancestors (item.1 / 2) p.chain).head?.map
          (fun ancestor => ({ source := ancestor.1, target := itemId items.length } : Edge))
        = (lastBelow? ((nodesOf items).map Node.depth) (item.1 / 2 : Nat)).map
          fun n => { source := itemId n, target := itemId items.length } := by
      have hsource := congrArg (Option.map fun source =>
        ({ source, target := itemId items.length } : Edge)) (h.chain (item.1 / 2))
      simpa only [Option.map_map, Function.comp_def] using hsource
    rw [edges_add, hlength, hparent, h.edges, hdepths, links_concat, List.length_map,
      length_nodesOf]
  · intro level
    rw [chain_add, hlength, hdepths, lastBelow?_concat, List.length_map, length_nodesOf]
    by_cases hlt : item.1 / 2 < level
    · have hkeep : ancestors level ((itemId items.length, item.1 / 2) ::
          ancestors (item.1 / 2) p.chain)
          = (itemId items.length, item.1 / 2) :: ancestors (item.1 / 2) p.chain :=
        List.dropWhile_cons_of_neg (by simpa using hlt)
      rw [hkeep, if_pos (Int.ofNat_lt.mpr hlt)]
      rfl
    · have hdrop : ancestors level ((itemId items.length, item.1 / 2) ::
          ancestors (item.1 / 2) p.chain) = ancestors level (ancestors (item.1 / 2) p.chain) :=
        List.dropWhile_cons_of_pos (by simpa using hlt)
      rw [hdrop, ancestors_ancestors (not_lt.mp hlt), if_neg (mt Int.ofNat_lt.mp hlt), h.chain]

/-- The items of some lines. -/
def itemsOf (lines : List (List Char)) : List (Nat × List Char) := lines.filterMap item?

theorem Progress.Follows.addLine (h : p.Follows items) (line : List Char) :
    (p.addLine line).Follows (items ++ itemsOf [line]) := by
  unfold Progress.addLine
  cases hitem : item? line with
  | none => simpa [itemsOf, hitem] using h
  | some item => simpa [itemsOf, hitem] using h.add item

theorem Progress.Follows.addLines (h : p.Follows items) (lines : List (List Char)) :
    (lines.foldl Progress.addLine p).Follows (items ++ itemsOf lines) := by
  induction lines generalizing p items with
  | nil => simpa [itemsOf] using h
  | cons line lines ih =>
    have hlines : items ++ itemsOf (line :: lines)
        = (items ++ itemsOf [line]) ++ itemsOf lines := by
      rw [List.append_assoc, itemsOf, itemsOf, itemsOf, ← List.filterMap_append,
        List.singleton_append]
    rw [hlines]
    exact ih (h.addLine line)

theorem nodes_readLines (lines : List (List Char)) :
    (readLines lines).nodes = nodesOf (itemsOf lines) :=
  (Progress.follows_nil.addLines lines).nodes

theorem edges_readLines (lines : List (List Char)) :
    (readLines lines).edges = links ((readLines lines).nodes.map Node.depth) := by
  rw [nodes_readLines]
  exact (Progress.follows_nil.addLines lines).edges

theorem exists_lines_of_parse {source : Option String} {g : Graph} (h : parse source = .ok g) :
    ∃ lines, sourceLines source = .ok lines ∧ readLines lines = g ∧ g.nodes ≠ [] := by
  unfold parse at h
  cases hlines : sourceLines source with
  | error e =>
    rw [hlines] at h
    cases h
  | ok lines =>
    rw [hlines] at h
    have hfinish : finish .outline (readLines lines) = .ok g := h
    rw [finish_of_wellFormed (wellFormed_readLines lines)] at hfinish
    split at hfinish
    · cases hfinish
    · next hne =>
      cases hfinish
      exact ⟨lines, rfl, rfl, hne⟩

theorem exists_level_readLines (lines : List (List Char)) :
    ∀ n ∈ (readLines lines).nodes, ∃ level : Nat, n.level = some (level : Int) := by
  intro n hn
  rw [nodes_readLines] at hn
  obtain ⟨item, -, rfl⟩ := List.mem_map.mp hn
  exact ⟨_, rfl⟩

/-! ## The forest -/

/-- The node of the item at an index, in a graph whose ids count the items. -/
theorem node?_itemId {g : Graph} (hids : g.nodeIds = (List.range g.nodes.length).map itemId)
    {n : Node} (hn : g.nodes[i]? = some n) : g.node? (itemId i) = some n := by
  have hid : g.nodeIds[i]? = some n.id := by
    rw [nodeIds, List.getElem?_map, hn]
    rfl
  have hlt : i < g.nodes.length := (List.getElem?_eq_some_iff.mp hn).1
  rw [hids, List.getElem?_map, List.getElem?_range hlt] at hid
  rw [Option.some.inj hid]
  refine node?_of_mem ?_ (List.mem_of_getElem? hn)
  rw [hids]
  exact nodup_map_itemId _

/-- Each item is led to at most once. -/
theorem nodup_targets_links (levels : List Int) : ((links levels).map (·.target)).Nodup := by
  have hsublist (js : List Nat) : ((js.filterMap fun j => (parent? levels j).map fun i =>
      ({ source := itemId i, target := itemId j } : Edge)).map (·.target)).Sublist
        (js.map itemId) := by
    induction js with
    | nil => exact .slnil
    | cons j js ih =>
      rw [List.filterMap_cons]
      cases parent? levels j with
      | none => exact ih.cons _
      | some i => exact ih.cons_cons _
  exact (hsublist _).nodup (nodup_map_itemId _)

/-- An edge leads from an item to a deeper one. -/
theorem depth_lt_of_mem_links {g : Graph}
    (hids : g.nodeIds = (List.range g.nodes.length).map itemId) {e : Edge}
    (he : e ∈ links (g.nodes.map Node.depth)) :
    ∃ m n, g.node? e.source = some m ∧ g.node? e.target = some n ∧ m.depth < n.depth := by
  obtain ⟨j, -, hj⟩ := List.mem_filterMap.mp he
  obtain ⟨i, hi, rfl⟩ := Option.map_eq_some_iff.mp hj
  obtain ⟨l, k, hl, hk, -, hlt, -⟩ := parent?_eq_some_iff.mp hi
  rw [List.getElem?_map] at hl hk
  obtain ⟨m, hm, rfl⟩ := Option.map_eq_some_iff.mp hl
  obtain ⟨n, hn, rfl⟩ := Option.map_eq_some_iff.mp hk
  exact ⟨m, n, node?_itemId hids hm, node?_itemId hids hn, hlt⟩

theorem isForest_of_depth_lt {g : Graph} (hnodup : g.targets.Nodup)
    (h : ∀ e ∈ g.edges, ∃ m n, g.node? e.source = some m ∧ g.node? e.target = some n ∧
      m.depth < n.depth) : g.IsForest := by
  let rank (id : String) : Int := ((g.node? id).map Node.depth).getD 0
  have hrank : ∀ e ∈ g.edges, rank e.source < rank e.target := by
    intro e he
    obtain ⟨m, n, hm, hn, hlt⟩ := h e he
    simpa [rank, hm, hn] using hlt
  refine ⟨hnodup, ?_⟩
  intro n id hwalk
  exact (hwalk.rank_lt hrank).false

/-- The graph of an outline: a node for each item, and an edge to each item from the last one above
it that is less deep. -/
theorem forest_of_parse {source : Option String} {g : Graph} (h : parse source = .ok g) :
    (∃ lines, sourceLines source = .ok lines ∧ g.nodes = nodesOf (itemsOf lines)) ∧
      g.nodeIds = (List.range g.nodes.length).map itemId ∧
      (∀ n ∈ g.nodes, ∃ level : Nat, n.level = some (level : Int)) ∧
      g.edges = links (g.nodes.map Node.depth) ∧
      (∀ i j, parent? (g.nodes.map Node.depth) j = some i ↔
        IsParent (g.nodes.map Node.depth) i j) ∧
      g.IsForest ∧
      ∀ e ∈ g.edges, ∃ m n, g.node? e.source = some m ∧ g.node? e.target = some n ∧
        m.depth < n.depth := by
  obtain ⟨lines, hlines, rfl, -⟩ := exists_lines_of_parse h
  have hnodes := nodes_readLines lines
  have hedges := edges_readLines lines
  have hids : (readLines lines).nodeIds
      = (List.range (readLines lines).nodes.length).map itemId := by
    rw [nodeIds, hnodes, map_id_nodesOf, length_nodesOf]
  have hrising : ∀ e ∈ (readLines lines).edges, ∃ m n, (readLines lines).node? e.source = some m ∧
      (readLines lines).node? e.target = some n ∧ m.depth < n.depth := by
    intro e he
    rw [hedges] at he
    exact depth_lt_of_mem_links hids he
  have hnodup : (readLines lines).targets.Nodup := by
    rw [targets, hedges]
    exact nodup_targets_links _
  exact ⟨⟨lines, hlines, hnodes⟩, hids, exists_level_readLines lines, hedges,
    fun _ _ => parent?_eq_some_iff, isForest_of_depth_lt hnodup hrising, hrising⟩

/-- Levels that are skipped, come back and are left, and a line that is no item. -/
theorem forest_of_parse_skips :
    let g := readLines (Text.lines "- a\n      - b\n   - c\n    1. d?\n\n+ e".toList)
    parse (some "- a\n      - b\n   - c\n    1. d?\n\n+ e") = .ok g ∧
      g.nodes.map Node.depth = [0, 3, 1, 2, 0] ∧
      g.edges = [{ source := "node0", target := "node1" }, { source := "node0", target := "node2" },
        { source := "node2", target := "node3" }] ∧
      g.IsForest := by
  intro g
  have hparse : parse (some "- a\n      - b\n   - c\n    1. d?\n\n+ e") = .ok g := by
    decide +kernel
  obtain ⟨-, -, -, -, -, hforest, -⟩ := forest_of_parse hparse
  exact ⟨hparse, by decide +kernel, by decide +kernel, hforest⟩

end Diagram.Outline

end Whiteboard
