import Whiteboard.Diagram
import Whiteboard.Proofs.Graph.WellFormed
import Whiteboard.Proofs.Text.Blank

/-!
# What diagram sources yield

Whatever its text, a source is blank, or it is read into a well-formed graph; so the last check of a
graph refuses one without nodes and no other (`Diagram.wellFormed_of_source`).
-/

namespace Whiteboard.Diagram

/-- A well-formed graph is refused only if it has no nodes. -/
theorem finish_of_wellFormed {g : Graph} (h : g.WellFormed) (format : Format) :
    finish format g = if g.nodes = [] then .error (.noNodes format) else .ok g := by
  by_cases hne : g.nodes = []
  · rw [finish, if_pos (by simpa using hne), if_pos hne]
  · have hnone : g.findings.find? (·.severity = .error) = none :=
      List.find?_eq_none.mpr fun f hf => by
        simpa using (Graph.wellFormed_iff_findings hne).mp h f hf
    rw [finish, if_neg (by simpa using hne), if_neg hne, hnone]

/-! ## Flowcharts -/

namespace Flowchart

variable {g : Graph}

theorem nodup_readLine (h : g.nodeIds.Nodup) (line : List Char) :
    (readLine g line).nodeIds.Nodup := by
  have hnodes := Graph.nodup_foldl_addNode (g := { g with
    direction := (readHeader line).1.getD g.direction }) h (allDeclarations (readHeader line).2).2
  rw [Graph.nodeIds] at hnodes ⊢
  rwa [readLine, Graph.nodes_foldl_addEdge]

theorem nodup_foldl_readLine (h : g.nodeIds.Nodup) (lines : List (List Char)) :
    (lines.foldl readLine g).nodeIds.Nodup := by
  induction lines generalizing g with
  | nil => exact h
  | cons line lines ih => exact ih (nodup_readLine h line)

/-- Declares the ids that edges name. -/
def declareEnds (g : Graph) (es : List Edge) : Graph :=
  es.foldl (fun g e => (g.ensureNode e.source).ensureNode e.target) g

@[simp] theorem edges_declareEnds (es : List Edge) : (declareEnds g es).edges = g.edges := by
  induction es generalizing g with
  | nil => rfl
  | cons e es ih => simpa [declareEnds] using ih (g := (g.ensureNode e.source).ensureNode e.target)

theorem isPrefix_declareEnds (g : Graph) (es : List Edge) :
    g.nodes <+: (declareEnds g es).nodes := by
  induction es generalizing g with
  | nil => exact List.prefix_rfl
  | cons e es ih =>
    exact ((Graph.isPrefix_addNode _ _).trans (Graph.isPrefix_addNode _ _)).trans (ih _)

theorem nodup_declareEnds (h : g.nodeIds.Nodup) (es : List Edge) :
    (declareEnds g es).nodeIds.Nodup := by
  induction es generalizing g with
  | nil => exact h
  | cons e es ih => exact ih (Graph.nodup_addNode (Graph.nodup_addNode h _) _)

theorem mem_nodeIds_declareEnds {id : String} {es : List Edge} :
    id ∈ (declareEnds g es).nodeIds ↔ id ∈ g.nodeIds ∨ ∃ e ∈ es, id = e.source ∨ id = e.target := by
  induction es generalizing g with
  | nil => simp [declareEnds]
  | cons e es ih =>
    have hstep : declareEnds g (e :: es)
        = declareEnds ((g.ensureNode e.source).ensureNode e.target) es := rfl
    rw [hstep, ih, Graph.mem_nodeIds_ensureNode, Graph.mem_nodeIds_ensureNode,
      List.exists_mem_cons_iff]
    simp only [or_assoc]

/-- Edges may name ids without a declaration while lines are read; in the end all are declared. -/
theorem wellFormed_readLines (lines : List (List Char)) : (readLines lines).WellFormed := by
  have hnodup := nodup_foldl_readLine (g := .empty) List.nodup_nil
    ((lines.map Text.trim).filter isStatement)
  generalize hg : ((lines.map Text.trim).filter isStatement).foldl readLine .empty = g at hnodup
  have hread : readLines lines = declareEnds g g.edges := by
    rw [readLines, hg, declareEnds]
  rw [hread]
  constructor
  · exact nodup_declareEnds hnodup _
  · intro e he
    rw [edges_declareEnds] at he
    exact mem_nodeIds_declareEnds.mpr (.inr ⟨e, he, .inl rfl⟩)
  · intro e he
    rw [edges_declareEnds] at he
    exact mem_nodeIds_declareEnds.mpr (.inr ⟨e, he, .inr rfl⟩)

end Flowchart

/-! ## Outlines -/

namespace Outline

/-- The items that later ones may belong to are nodes of a well-formed graph. -/
structure Progress.Sound (p : Progress) : Prop where
  graph : p.graph.WellFormed
  chain : ∀ item ∈ p.chain, item.1 ∈ p.graph.nodeIds

variable {p : Progress}

theorem Progress.Sound.add (h : p.Sound) (indent : Nat) (content : List Char) :
    (p.add indent content).Sound := by
  generalize hnode : nodeOf p.graph.nodes.length (indent / 2)
    (String.ofList (Text.trim content)) = node
  have hgraph := h.graph.addNode node
  have hnew : node.id ∈ (p.graph.addNode node).nodeIds := Graph.mem_nodeIds_addNode.mpr (.inr rfl)
  have hchain : ∀ item ∈ ancestors (indent / 2) p.chain, item.1 ∈ (p.graph.addNode node).nodeIds :=
    fun item hitem => Graph.mem_nodeIds_addNode.mpr
      (.inl (h.chain item ((List.dropWhile_suffix _).subset hitem)))
  simp only [Progress.add, hnode]
  cases hancestors : ancestors (indent / 2) p.chain with
  | nil => exact ⟨hgraph, List.forall_mem_cons.mpr ⟨hnew, by simp⟩⟩
  | cons parent rest =>
    rw [hancestors] at hchain
    have hparent := hchain parent List.mem_cons_self
    exact ⟨hgraph.addEdge hparent hnew, List.forall_mem_cons.mpr ⟨hnew, hchain⟩⟩

theorem Progress.Sound.addLine (h : p.Sound) (line : List Char) : (p.addLine line).Sound := by
  unfold Progress.addLine
  split
  · exact h.add _ _
  · exact h

theorem Progress.Sound.addLines (h : p.Sound) (lines : List (List Char)) :
    (lines.foldl Progress.addLine p).Sound := by
  induction lines generalizing p with
  | nil => exact h
  | cons line lines ih => exact ih (h.addLine line)

theorem wellFormed_readLines (lines : List (List Char)) : (readLines lines).WellFormed :=
  (Progress.Sound.addLines ⟨Graph.wellFormed_empty, by simp⟩ lines).graph

end Outline

/-! ## Class, sequence and activity diagrams -/

namespace Uml

variable {p : Progress}

theorem wellFormed_addStep (h : p.graph.WellFormed) (n : Node) :
    (p.addStep n).graph.WellFormed := by
  have hgraph := h.addNode n
  unfold Progress.addStep
  dsimp only
  split
  · exact hgraph
  · next last hlast =>
    split
    · exact hgraph
    · have hmem : last.id ∈ p.graph.nodeIds :=
        List.mem_map_of_mem (List.mem_of_getLast? hlast)
      exact hgraph.addEdge (Graph.mem_nodeIds_addNode.mpr (.inl hmem))
        (Graph.mem_nodeIds_addNode.mpr (.inr rfl))

theorem wellFormed_addEdge (h : p.graph.WellFormed) (e : Edge) :
    (p.addEdge e).graph.WellFormed := by
  refine ((h.ensureNode e.source).ensureNode e.target).addEdge ?_ ?_
  · exact Graph.mem_nodeIds_ensureNode.mpr (.inl (Graph.mem_nodeIds_ensureNode.mpr (.inr rfl)))
  · exact Graph.mem_nodeIds_ensureNode.mpr (.inr rfl)

theorem wellFormed_closeClass (h : p.graph.WellFormed) : p.closeClass.graph.WellFormed := by
  unfold Progress.closeClass
  split
  · exact h
  · exact h.addNode _

theorem wellFormed_addMember (h : p.graph.WellFormed) (name : String) (members : List String)
    (line : List Char) : (p.addMember name members line).graph.WellFormed := by
  unfold Progress.addMember
  split
  · exact h
  · exact wellFormed_closeClass h

theorem wellFormed_readClass (h : p.graph.WellFormed) (name : String) (body? : Option (List Char)) :
    (readClass p name body?).graph.WellFormed := by
  cases body? with
  | none => exact h.addNode _
  | some body =>
    unfold readClass
    dsimp only
    split
    · exact h.addNode _
    · exact h

/-- One case for each form of statement. -/
theorem wellFormed_readStatement (h : p.graph.WellFormed) (line : List Char) :
    (readStatement p line).graph.WellFormed := by
  unfold readStatement
  split
  · exact wellFormed_readClass h _ _
  · split
    · exact h.addNode _
    · split
      · exact wellFormed_addStep h _
      · split
        · exact wellFormed_addEdge h _
        · exact h

theorem wellFormed_readLine (h : p.graph.WellFormed) (line : List Char) :
    (readLine p line).graph.WellFormed := by
  unfold readLine
  split
  · exact wellFormed_addMember h _ _ _
  · exact wellFormed_readStatement h line

theorem wellFormed_foldl_readLine (h : p.graph.WellFormed) (lines : List (List Char)) :
    (lines.foldl readLine p).graph.WellFormed := by
  induction lines generalizing p with
  | nil => exact h
  | cons line lines ih => exact ih (wellFormed_readLine h line)

theorem wellFormed_readLines (lines : List (List Char)) : (readLines lines).WellFormed :=
  wellFormed_closeClass (wellFormed_foldl_readLine Graph.wellFormed_empty _)

end Uml

/-! ## All formats -/

/-- The graph that the lines of a source in a format make, before it is checked. -/
def readAs : Format → List (List Char) → Graph
  | .flowchart => Flowchart.readLines
  | .outline => Outline.readLines
  | .uml => Uml.readLines

theorem parseAs_eq (format : Format) (source : Option String) :
    parseAs format source = (sourceLines source).bind fun lines =>
      finish format (readAs format lines) := by
  cases format <;> rfl

theorem wellFormed_readAs (format : Format) (lines : List (List Char)) :
    (readAs format lines).WellFormed := by
  cases format with
  | flowchart => exact Flowchart.wellFormed_readLines lines
  | outline => exact Outline.wellFormed_readLines lines
  | uml => exact Uml.wellFormed_readLines lines

/-- A source that is not blank has the lines of its text without the blanks around it. -/
theorem sourceLines_eq (source : Option String) :
    sourceLines source = if Text.trim (source.getD "").toList = [] then .error .blank
      else .ok (Text.lines (Text.trim (source.getD "").toList)) := by
  unfold sourceLines
  split
  · next h => rw [if_pos h]
  · next h => rw [if_neg h]

/-- A source of one line, without blanks around it. -/
theorem sourceLines_line {line : List Char} (htrim : Text.Trimmed line) (hne : line ≠ [])
    (hline : '\n' ∉ line) : sourceLines (some (String.ofList line)) = .ok [line] := by
  rw [sourceLines_eq, Option.getD_some, String.toList_ofList, htrim.trim_eq, if_neg hne,
    Text.lines_of_not_mem hline]

/-- A source is refused for being blank or for having no nodes; every other one yields the graph
that its lines make, which is well formed, as is the graph without nodes. -/
theorem wellFormed_of_source (format : Format) (source : Option String) :
    (Text.trim (source.getD "").toList = [] ∧ parseAs format source = .error .blank) ∨
      ∃ lines, sourceLines source = .ok lines ∧ (readAs format lines).WellFormed ∧
        ((readAs format lines).nodes = [] ∧ parseAs format source = .error (.noNodes format) ∨
          (readAs format lines).nodes ≠ [] ∧
            parseAs format source = .ok (readAs format lines)) := by
  by_cases hblank : Text.trim (source.getD "").toList = []
  · refine .inl ⟨hblank, ?_⟩
    rw [parseAs_eq, sourceLines_eq, if_pos hblank]
    rfl
  · right
    have hlines := sourceLines_eq source
    rw [if_neg hblank] at hlines
    generalize Text.lines (Text.trim (source.getD "").toList) = lines at hlines
    have hread := wellFormed_readAs format lines
    have hparse : parseAs format source = finish format (readAs format lines) := by
      rw [parseAs_eq, hlines]
      rfl
    rw [finish_of_wellFormed hread] at hparse
    refine ⟨lines, hlines, hread, ?_⟩
    by_cases hnodes : (readAs format lines).nodes = []
    · exact .inl ⟨hnodes, hparse.trans (if_pos hnodes)⟩
    · exact .inr ⟨hnodes, hparse.trans (if_neg hnodes)⟩

end Whiteboard.Diagram
