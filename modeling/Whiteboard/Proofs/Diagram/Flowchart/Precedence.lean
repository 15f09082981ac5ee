import Whiteboard.Proofs.Diagram.Flowchart.Line
import Whiteboard.Proofs.Diagram.Flowchart.Segment

/-!
# Which declaration of an id counts

Of several declarations of an id the one that is read first counts, and the ends of edges without a
declaration are bare nodes (`Flowchart.eq_of_mem_readLines`). Lines are read from top to bottom, but
the declarations on a line kind by kind. So a node shows the declaration of its id that stands first
in the text if the first line that declares the id does so in one kind of brackets
(`Flowchart.parse_of_clear`), and may show another one if not (`Flowchart.parse_declared_twice`).
-/

namespace Whiteboard.Diagram.Flowchart

variable {lines : List (List Char)} {n : Node} {d : Declaration} {ds : List Declaration}
  {id : String}

/-! ## What is read first -/

theorem exists_declareEnds_eq (g : Graph) (es : List Edge) : ∃ ns : List Node,
    (∀ n ∈ ns, n = .bare n.id) ∧ declareEnds g es = ns.foldl Graph.addNode g := by
  induction es generalizing g with
  | nil => exact ⟨[], List.forall_mem_nil _, rfl⟩
  | cons e es ih =>
    obtain ⟨ns, hns, heq⟩ := ih ((g.ensureNode e.source).ensureNode e.target)
    refine ⟨.bare e.source :: .bare e.target :: ns, ?_, heq⟩
    rw [List.forall_mem_cons, List.forall_mem_cons]
    exact ⟨rfl, rfl, hns⟩

/-- A node is the first that is declared with its id, and a bare one if none is. -/
theorem eq_of_mem_readLines (h : n ∈ (readLines lines).nodes) :
    n = ((lines.flatMap declared).find? (·.id == n.id)).getD (.bare n.id) := by
  have hlookup := Graph.node?_of_mem (wellFormed_readLines lines).nodup h
  obtain ⟨ns, hns, heq⟩ := exists_declareEnds_eq {
    direction := headingOf lines .tb
    nodes := ((lines.flatMap declared).foldl Graph.addNode .empty).nodes
    edges := lines.flatMap joined } (lines.flatMap joined)
  have hdeclared : ((lines.flatMap declared).foldl Graph.addNode .empty).node? n.id
      = (lines.flatMap declared).find? (·.id == n.id) := by
    rw [Graph.node?_foldl_addNode]
    exact Option.none_or ..
  rw [Graph.node?] at hdeclared
  rw [readLines_eq, heq, Graph.node?_foldl_addNode, Graph.node?, hdeclared] at hlookup
  cases hfind : (lines.flatMap declared).find? (·.id == n.id) with
  | some m =>
    rw [hfind, Option.some_or, Option.some.injEq] at hlookup
    exact hlookup.symm
  | none =>
    rw [hfind, Option.none_or] at hlookup
    exact hns n (List.mem_of_find?_eq_some hlookup)

theorem mem_nodeIds_readLines : id ∈ (readLines lines).nodeIds ↔ ∃ line ∈ lines,
    (∃ n ∈ declared line, n.id = id) ∨ ∃ e ∈ joined line, id = e.source ∨ id = e.target := by
  have hdeclared : id ∈ ((lines.flatMap declared).foldl Graph.addNode .empty).nodeIds ↔
      ∃ n ∈ lines.flatMap declared, n.id = id := by
    rw [← Graph.hasNode_iff, Graph.hasNode, Graph.node?_foldl_addNode, Graph.node?, Graph.empty,
      List.find?_nil, Option.none_or, List.find?_isSome]
    simp only [beq_iff_eq]
  rw [Graph.nodeIds] at hdeclared
  rw [readLines_eq, mem_nodeIds_declareEnds, Graph.nodeIds, hdeclared]
  simp only [List.mem_flatMap]
  constructor
  · rintro (⟨n, ⟨line, hline, hn⟩, hid⟩ | ⟨e, ⟨line, hline, he⟩, hid⟩)
    · exact ⟨line, hline, .inl ⟨n, hn, hid⟩⟩
    · exact ⟨line, hline, .inr ⟨e, he, hid⟩⟩
  · rintro ⟨line, hline, ⟨n, hn, hid⟩ | ⟨e, he, hid⟩⟩
    · exact .inl ⟨n, ⟨line, hline, hn⟩, hid⟩
    · exact .inr ⟨e, ⟨line, hline, he⟩, hid⟩

/-! ## What stands first -/

/-- The declarations on a line from left to right. -/
def shown (line : List Char) : List Declaration := found (segments (body line))

/-- The first of some declarations that declares an id. -/
def firstOf (id : String) (ds : List Declaration) : Option Declaration :=
  ds.find? (·.node.id == id)

theorem declared_of_clear {line : List Char} (h : Clear (segments (body line))) :
    declared line = (byKind (shown line)).map Declaration.node := by
  rw [declared, allDeclarations_of_clear h, shown]

theorem mem_brackets_of_mem_found {segs : List Segment} (h : Proper segs) (hd : d ∈ found segs) :
    d.bracket ∈ brackets := by
  induction h with
  | nil => cases hd
  | other _ _ ih => exact ih hd
  | declaration hb _ _ ih =>
    rcases List.mem_cons.mp hd with rfl | hd
    · exact hb
    · exact ih hd

theorem mem_brackets_of_mem_shown {line : List Char} (hd : d ∈ shown line) : d.bracket ∈ brackets :=
  mem_brackets_of_mem_found (spell_segments (body line)).2 hd

theorem mem_byKind (hb : ∀ d ∈ ds, d.bracket ∈ brackets) : d ∈ byKind ds ↔ d ∈ ds := by
  simp only [byKind, List.mem_flatMap, List.mem_filter, decide_eq_true_eq]
  exact ⟨fun ⟨_, _, hd, _⟩ => hd, fun hd => ⟨d.bracket, hb d hd, hd, rfl⟩⟩

/-- Declarations in one kind of brackets are read as they stand. -/
theorem firstOf_byKind (hb : ∀ d ∈ ds, d.bracket ∈ brackets) (hfirst : firstOf id ds = some d)
    (hkind : ∀ k ∈ ds, k.node.id = id → k.bracket = d.bracket) :
    firstOf id (byKind ds) = some d := by
  obtain ⟨earlier, later, hbrackets⟩ := List.append_of_mem (hb d (List.mem_of_find?_eq_some hfirst))
  have hnodup : brackets.Nodup := by decide
  rw [hbrackets, List.nodup_append] at hnodup
  have hearlier : (earlier.flatMap fun b => ds.filter (·.bracket = b)).find? (·.node.id == id)
      = none := by
    rw [List.find?_eq_none]
    intro k hk hid
    obtain ⟨b, hb, hk⟩ := List.mem_flatMap.mp hk
    rw [List.mem_filter, decide_eq_true_eq] at hk
    have hsame : b = d.bracket := hk.2.symm.trans (hkind k hk.1 (by simpa using hid))
    exact hnodup.2.2 b hb d.bracket List.mem_cons_self hsame
  have hown : (ds.filter (·.bracket = d.bracket)).find? (·.node.id == id) = some d := by
    rw [List.find?_filter, ← hfirst, firstOf]
    refine List.find?_congr fun k hk => ?_
    by_cases hid : k.node.id = id
    · simp [hkind k hk hid, hid]
    · simp [hid]
  rw [firstOf, byKind, hbrackets, List.flatMap_append, List.flatMap_cons, List.find?_append,
    hearlier, Option.none_or, List.find?_append, hown, Option.some_or]

/-- The declarations in a text in the order in which they are read: line by line, and on a line kind
by kind. -/
def inOrder (lines : List (List Char)) : List Declaration :=
  lines.flatMap fun line => byKind (shown line)

theorem mem_inOrder : d ∈ inOrder lines ↔ d ∈ lines.flatMap shown := by
  simp only [inOrder, List.mem_flatMap, mem_byKind fun _ => mem_brackets_of_mem_shown]

theorem firstOf_eq_none_congr {ds' : List Declaration} (h : ∀ d, d ∈ ds ↔ d ∈ ds') :
    firstOf id ds = none ↔ firstOf id ds' = none := by
  rw [firstOf, firstOf, List.find?_eq_none, List.find?_eq_none]
  exact forall_congr' fun d => imp_congr_left (h d)

/-! ## Texts with several declarations of an id -/

section Clear

variable (h : ∀ line ∈ lines, Clear (segments (body line)))
include h

theorem flatMap_declared_of_clear :
    lines.flatMap declared = (inOrder lines).map Declaration.node := by
  rw [inOrder, List.map_flatMap]
  exact List.flatMap_congr fun line hline => declared_of_clear (h line hline)

theorem eq_node_of_mem (hn : n ∈ (readLines lines).nodes) :
    n = ((firstOf n.id (inOrder lines)).map Declaration.node).getD (.bare n.id) := by
  have heq := eq_of_mem_readLines hn
  rwa [flatMap_declared_of_clear h, List.find?_map] at heq

theorem eq_bare_of_firstOf (hn : n ∈ (readLines lines).nodes)
    (hnone : firstOf n.id (lines.flatMap shown) = none) : n = .bare n.id := by
  have heq := eq_node_of_mem h hn
  rwa [(firstOf_eq_none_congr fun d => mem_inOrder).mpr hnone] at heq

/-- On the first line that declares an id the first kind of brackets decides. -/
theorem exists_node_of_firstOf (hn : n ∈ (readLines lines).nodes)
    {before behind : List (List Char)} {line : List Char}
    (hlines : lines = before ++ line :: behind)
    (hbefore : firstOf n.id (before.flatMap shown) = none)
    (hfirst : firstOf n.id (shown line) = some d) :
    ∃ e, firstOf n.id (byKind (shown line)) = some e ∧ n = e.node := by
  have hbefore' : firstOf n.id (inOrder before) = none :=
    (firstOf_eq_none_congr fun d => mem_inOrder).mpr hbefore
  have hline : firstOf n.id (byKind (shown line)) ≠ none := by
    rw [Ne, firstOf_eq_none_congr fun d => mem_byKind fun _ => mem_brackets_of_mem_shown, hfirst]
    exact Option.some_ne_none d
  obtain ⟨e, he⟩ := Option.ne_none_iff_exists'.mp hline
  have hlook : firstOf n.id (inOrder lines) = some e := by
    rw [firstOf] at hbefore' he
    rw [hlines, firstOf, inOrder, List.flatMap_append, List.flatMap_cons, List.find?_append,
      ← inOrder, hbefore', Option.none_or, List.find?_append, he, Option.some_or]
  have heq := eq_node_of_mem h hn
  rw [hlook] at heq
  exact ⟨e, he, heq⟩

theorem mem_nodeIds_of_clear : id ∈ (readLines lines).nodeIds ↔ ∃ line ∈ lines,
    (∃ d ∈ shown line, d.node.id = id) ∨ ∃ e ∈ joined line, id = e.source ∨ id = e.target := by
  rw [mem_nodeIds_readLines]
  refine exists_congr fun line => and_congr_right fun hline => or_congr_left ?_
  simp only [declared_of_clear (h line hline), List.mem_map, exists_exists_and_eq_and,
    mem_byKind fun _ => mem_brackets_of_mem_shown]

end Clear

/-- Nothing but the declarations of its id and the edges at it makes a node. If the first line that
declares an id does so in one kind of brackets, its node shows the declaration that stands first;
else the one in the first kind of brackets. -/
theorem parse_of_clear {s : String}
    (h : ∀ line ∈ Text.lines s.toList, Clear (segments (body line))) :
    ∃ g : Graph,
      parse (some s) = (if Text.trim s.toList = [] then .error .blank
        else if g.nodes = [] then .error (.noNodes .flowchart) else .ok g) ∧
      (∀ id, id ∈ g.nodeIds ↔ ∃ line ∈ Text.lines s.toList, (∃ d ∈ shown line, d.node.id = id) ∨
        ∃ e ∈ joined line, id = e.source ∨ id = e.target) ∧
      ∀ n ∈ g.nodes,
        (firstOf n.id ((Text.lines s.toList).flatMap shown) = none → n = .bare n.id) ∧
        ∀ before line behind d, Text.lines s.toList = before ++ line :: behind →
          firstOf n.id (before.flatMap shown) = none → firstOf n.id (shown line) = some d →
            ∃ e, firstOf n.id (byKind (shown line)) = some e ∧ n = e.node ∧
              ((∀ k ∈ shown line, k.node.id = n.id → k.bracket = d.bracket) → e = d) := by
  refine ⟨readLines (Text.lines s.toList), ?_, fun id => mem_nodeIds_of_clear h, fun n hn =>
    ⟨eq_bare_of_firstOf h hn, fun before line behind d hlines hbefore hfirst => ?_⟩⟩
  · rw [parse_eq, finish_of_wellFormed (wellFormed_readLines _)]
  · obtain ⟨e, he, heq⟩ := exists_node_of_firstOf h hn hlines hbefore hfirst
    refine ⟨e, he, heq, fun hkind => ?_⟩
    have hsame := firstOf_byKind (fun _ => mem_brackets_of_mem_shown) hfirst hkind
    exact Option.some.inj (he.symm.trans hsame)

/-- On the first line that declares an id it stands in one kind of brackets, and in others below. -/
theorem parse_of_clear_steps : ∃ g : Graph,
    parse (some "graph LR\nA(Ready) --> B\x7bGo\x7d\nA[[Set]] C((Off)) --> C((On)) A[Go]") = .ok g ∧
    ∀ n ∈ g.nodes, (n.id = "A" → n = { id := "A", label := "Ready", shape := .rounded }) ∧
      (n.id = "C" → n = { id := "C", label := "Off", shape := .circle }) := by
  obtain ⟨g, hparse, hids, hnodes⟩ := parse_of_clear (s :=
    "graph LR\nA(Ready) --> B\x7bGo\x7d\nA[[Set]] C((Off)) --> C((On)) A[Go]") (by decide)
  have hmem : "A" ∈ g.nodeIds := (hids "A").mpr ⟨"A(Ready) --> B\x7bGo\x7d".toList, by decide,
    .inl ⟨⟨⟨['('], [')'], .rounded⟩, ['A'], "Ready".toList⟩, by decide, rfl⟩⟩
  rw [if_neg (by decide), if_neg (Graph.nodes_ne_nil_of_mem hmem)] at hparse
  refine ⟨g, hparse, fun n hn => ⟨fun hid => ?_, fun hid => ?_⟩⟩
  · obtain ⟨e, -, heq, hsame⟩ := (hnodes n hn).2 ["graph LR".toList]
      "A(Ready) --> B\x7bGo\x7d".toList ["A[[Set]] C((Off)) --> C((On)) A[Go]".toList]
      ⟨⟨['('], [')'], .rounded⟩, ['A'], "Ready".toList⟩ (by decide) (by rw [hid]; decide)
      (by rw [hid]; decide)
    rw [heq, hsame (by rw [hid]; decide)]
    rfl
  · obtain ⟨e, -, heq, hsame⟩ := (hnodes n hn).2
      ["graph LR".toList, "A(Ready) --> B\x7bGo\x7d".toList]
      "A[[Set]] C((Off)) --> C((On)) A[Go]".toList []
      ⟨⟨['(', '('], [')', ')'], .circle⟩, ['C'], "Off".toList⟩ (by decide) (by rw [hid]; decide)
      (by rw [hid]; decide)
    rw [heq, hsame (by rw [hid]; decide)]
    rfl

/-- Square brackets are read before round ones. -/
theorem parse_declared_twice : ∃ g : Graph, parse (some "A(One) --> A[Two]") = .ok g ∧
    "A" ∈ g.nodeIds ∧ (∀ n ∈ g.nodes, n.id = "A" → n = { id := "A", label := "Two" }) ∧
    (firstOf "A" (shown "A(One) --> A[Two]".toList)).map Declaration.node
      = some { id := "A", label := "One", shape := .rounded } := by
  have hlines : Text.lines "A(One) --> A[Two]".toList = ["A(One) --> A[Two]".toList] := by decide
  have hclear : ∀ line ∈ ["A(One) --> A[Two]".toList], Clear (segments (body line)) := by decide
  have hfirst : firstOf "A" (inOrder ["A(One) --> A[Two]".toList])
      = some ⟨⟨['['], [']'], .rectangle⟩, ['A'], "Two".toList⟩ := by decide
  have hmem : "A" ∈ (readLines ["A(One) --> A[Two]".toList]).nodeIds :=
    (mem_nodeIds_of_clear hclear).mpr ⟨"A(One) --> A[Two]".toList, List.mem_singleton_self _,
      .inl ⟨⟨⟨['['], [']'], .rectangle⟩, ['A'], "Two".toList⟩, by decide, rfl⟩⟩
  refine ⟨readLines ["A(One) --> A[Two]".toList], ?_, hmem, fun n hn hid => ?_, by decide⟩
  · rw [parse_eq, if_neg (by decide), hlines, finish_of_wellFormed (wellFormed_readLines _),
      if_neg (Graph.nodes_ne_nil_of_mem hmem)]
  · have heq := eq_node_of_mem hclear hn
    rw [hid, hfirst] at heq
    exact heq

end Whiteboard.Diagram.Flowchart
