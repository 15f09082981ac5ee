import Whiteboard.Proofs.Diagram.Flowchart.Declaration
import Whiteboard.Proofs.Diagram.WellFormed
import Whiteboard.Proofs.Drawing.Color

/-!
# Colors in diagrams

The nodes of flowcharts and of class, sequence and activity diagrams have no background of their
own, and those of outlines have one that is written in hexadecimal digits
(`Diagram.isHex_fill_readAs`).
-/

namespace Whiteboard

/-! ## All nodes of a graph -/

namespace Graph

variable {P : Node → Prop} {g : Graph}

/-- Whether all nodes of a graph have a property. -/
def AllNodes (P : Node → Prop) (g : Graph) : Prop := ∀ n ∈ g.nodes, P n

namespace AllNodes

theorem empty : AllNodes P empty := fun _ hn => by cases hn

theorem addNode (h : AllNodes P g) {n : Node} (hn : P n) : AllNodes P (g.addNode n) := by
  by_cases hmem : n.id ∈ g.nodeIds
  · rwa [addNode_of_mem hmem]
  · rw [addNode_of_not_mem hmem]
    exact List.forall_mem_append.mpr ⟨h, List.forall_mem_singleton.mpr hn⟩

theorem foldl_addNode (h : AllNodes P g) {ns : List Node} (hns : ∀ n ∈ ns, P n) :
    AllNodes P (ns.foldl Graph.addNode g) := by
  induction ns generalizing g with
  | nil => exact h
  | cons n ns ih =>
    rw [List.forall_mem_cons] at hns
    exact ih (h.addNode hns.1) hns.2

end AllNodes

end Graph

namespace Diagram

/-- A node without a background of its own. -/
def Uncolored (n : Node) : Prop := n.fill = none

theorem uncolored_bare (id : String) : Uncolored (.bare id) := rfl

/-! ## Flowcharts -/

namespace Flowchart

variable {g : Graph}

theorem uncolored_declarations (b : Bracket) (cs : List Char) :
    ∀ n ∈ (declarations b cs).2, Uncolored n := by
  induction cs using declarations.induct b with
  | case1 cs id label rest h _ _ _ ih =>
    rw [declarations_of_some h]
    exact List.forall_mem_cons.mpr ⟨rfl, ih⟩
  | case2 => simp [declarations_nil]
  | case3 c rest h _ _ _ ih =>
    rw [declarations_of_none h]
    exact ih

theorem uncolored_foldl_takeOut {bs : List Bracket} {taken : List Char × List Node}
    (h : ∀ n ∈ taken.2, Uncolored n) : ∀ n ∈ (bs.foldl takeOut taken).2, Uncolored n := by
  induction bs generalizing taken with
  | nil => exact h
  | cons b bs ih => exact ih (List.forall_mem_append.mpr ⟨h, uncolored_declarations b _⟩)

theorem uncolored_allDeclarations (cs : List Char) :
    ∀ n ∈ (allDeclarations cs).2, Uncolored n := by
  rw [allDeclarations_eq]
  exact uncolored_foldl_takeOut (List.forall_mem_nil _)

theorem uncolored_foldl_readLine (h : Graph.AllNodes Uncolored g) (lines : List (List Char)) :
    Graph.AllNodes Uncolored (lines.foldl readLine g) := by
  induction lines generalizing g with
  | nil => exact h
  | cons line lines ih =>
    refine ih ?_
    rw [Graph.AllNodes, readLine, Graph.nodes_foldl_addEdge]
    exact Graph.AllNodes.foldl_addNode (g := { g with
      direction := (readHeader line).1.getD g.direction }) h (uncolored_allDeclarations _)

theorem uncolored_declareEnds (h : Graph.AllNodes Uncolored g) (es : List Edge) :
    Graph.AllNodes Uncolored (declareEnds g es) := by
  induction es generalizing g with
  | nil => exact h
  | cons e es ih => exact ih ((h.addNode (uncolored_bare _)).addNode (uncolored_bare _))

theorem uncolored_readLines (lines : List (List Char)) :
    Graph.AllNodes Uncolored (readLines lines) :=
  uncolored_declareEnds (uncolored_foldl_readLine Graph.AllNodes.empty _) _

end Flowchart

/-! ## Class, sequence and activity diagrams -/

namespace Uml

variable {p : Progress}

theorem uncolored_addStep (h : Graph.AllNodes Uncolored p.graph) {n : Node} (hn : Uncolored n) :
    Graph.AllNodes Uncolored (p.addStep n).graph := by
  have hgraph := h.addNode hn
  unfold Progress.addStep
  dsimp only
  split
  · exact hgraph
  · split <;> exact hgraph

theorem uncolored_closeClass (h : Graph.AllNodes Uncolored p.graph) :
    Graph.AllNodes Uncolored p.closeClass.graph := by
  unfold Progress.closeClass
  split
  · exact h
  · exact h.addNode rfl

theorem uncolored_addMember (h : Graph.AllNodes Uncolored p.graph) (name : String)
    (members : List String) (line : List Char) :
    Graph.AllNodes Uncolored (p.addMember name members line).graph := by
  unfold Progress.addMember
  split
  · exact h
  · exact uncolored_closeClass h

theorem uncolored_readClass (h : Graph.AllNodes Uncolored p.graph) (name : String)
    (body? : Option (List Char)) : Graph.AllNodes Uncolored (readClass p name body?).graph := by
  cases body? with
  | none => exact h.addNode rfl
  | some body =>
    unfold readClass
    dsimp only
    split
    · exact h.addNode rfl
    · exact h

theorem uncolored_participant? {line : List Char} {n : Node} (h : participant? line = some n) :
    Uncolored n := by
  unfold participant? at h
  dsimp only at h
  split at h
  · cases h
  · split at h
    · cases h
    · cases h
      rfl

theorem uncolored_step? {count : Nat} {line : List Char} {n : Node}
    (h : step? count line = some n) : Uncolored n := by
  unfold step? at h
  split at h
  · cases h
    rfl
  · split at h
    · cases h
      rfl
    · split at h
      · cases h
        rfl
      · obtain ⟨label, -, rfl⟩ := Option.map_eq_some_iff.mp h
        rfl

/-- One case for each form of statement. -/
theorem uncolored_readStatement (h : Graph.AllNodes Uncolored p.graph) (line : List Char) :
    Graph.AllNodes Uncolored (readStatement p line).graph := by
  unfold readStatement
  split
  · exact uncolored_readClass h _ _
  · split
    · next hnode => exact h.addNode (uncolored_participant? hnode)
    · split
      · next hnode => exact uncolored_addStep h (uncolored_step? hnode)
      · split
        · exact (h.addNode (uncolored_bare _)).addNode (uncolored_bare _)
        · exact h

theorem uncolored_foldl_readLine (h : Graph.AllNodes Uncolored p.graph) (lines : List (List Char)) :
    Graph.AllNodes Uncolored (lines.foldl readLine p).graph := by
  induction lines generalizing p with
  | nil => exact h
  | cons line lines ih =>
    refine ih ?_
    unfold readLine
    split
    · exact uncolored_addMember h _ _ _
    · exact uncolored_readStatement h line

theorem uncolored_readLines (lines : List (List Char)) :
    Graph.AllNodes Uncolored (readLines lines) :=
  uncolored_closeClass (uncolored_foldl_readLine Graph.AllNodes.empty _)

end Uml

/-! ## Outlines -/

namespace Outline

/-- A node whose background can be read. -/
def Colored (n : Node) : Prop := ∃ fill, n.fill = some fill ∧ Color.isHex fill = true

variable {p : Progress}

theorem colored_nodeOf (n level : Nat) (label : String) : Colored (nodeOf n level label) :=
  ⟨_, rfl, Color.isHex_colorsAt level⟩

theorem colored_add (h : Graph.AllNodes Colored p.graph) (indent : Nat) (content : List Char) :
    Graph.AllNodes Colored (p.add indent content).graph := by
  have hgraph := h.addNode (colored_nodeOf p.graph.nodes.length (indent / 2)
    (String.ofList (Text.trim content)))
  unfold Progress.add
  dsimp only
  split <;> exact hgraph

theorem colored_readLines (lines : List (List Char)) :
    Graph.AllNodes Colored (readLines lines) := by
  have hfold : ∀ p : Progress, Graph.AllNodes Colored p.graph →
      Graph.AllNodes Colored (lines.foldl Progress.addLine p).graph := by
    induction lines with
    | nil => exact fun p h => h
    | cons line lines ih =>
      intro p h
      refine ih _ ?_
      unfold Progress.addLine
      split
      · exact colored_add h _ _
      · exact h
  exact hfold {} Graph.AllNodes.empty

end Outline

/-! ## All formats -/

/-- The backgrounds that come with a source are colors written in hexadecimal digits. -/
theorem isHex_fill_readAs (format : Format) (lines : List (List Char)) :
    ∀ n ∈ (readAs format lines).nodes, ∀ fill ∈ n.fill, Color.isHex fill = true := by
  intro n hn fill hfill
  cases format with
  | flowchart =>
    rw [Option.mem_def, Flowchart.uncolored_readLines lines n hn] at hfill
    cases hfill
  | uml =>
    rw [Option.mem_def, Uml.uncolored_readLines lines n hn] at hfill
    cases hfill
  | outline =>
    obtain ⟨color, hcolor, hhex⟩ := Outline.colored_readLines lines n hn
    rw [Option.mem_def, hcolor] at hfill
    exact Option.some.inj hfill ▸ hhex

end Diagram

end Whiteboard
