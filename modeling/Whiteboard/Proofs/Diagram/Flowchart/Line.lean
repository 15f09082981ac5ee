import Whiteboard.Proofs.Diagram.Flowchart.Statement
import Whiteboard.Proofs.Text.Line

/-!
# What the lines of a flowchart add

A line may set the direction, declare nodes and join nodes by edges, and nothing else of it reaches
the graph (`Flowchart.readLines_eq`). Nodes and edges are kept apart, and the ends of edges are
declared behind all lines. So a line without edges may change places with one that declares nothing
(`Flowchart.parse_of_swapped`).
-/

namespace Whiteboard.Diagram.Flowchart

variable {g : Graph} {line a b : List Char} {lines before behind : List (List Char)}

/-! ## The effect of a line -/

/-- The direction that a line sets. Blank lines and comments set none. -/
def heading (line : List Char) : Option Direction :=
  if isStatement (Text.trim line) then (readHeader (Text.trim line)).1 else none

/-- The statement on a line, without a header before it. Blank lines and comments have none. -/
def body (line : List Char) : List Char :=
  if isStatement (Text.trim line) then (readHeader (Text.trim line)).2 else []

/-- The nodes that a line declares, in the order in which they are read. -/
def declared (line : List Char) : List Node := (allDeclarations (body line)).2

/-- The edges of a line. -/
def joined (line : List Char) : List Edge := edges (allDeclarations (body line)).1

def IsHeader (line : List Char) : Prop := dropKeyword? (Text.trim line) ≠ none

instance : DecidablePred IsHeader := fun _ => instDecidableNot

theorem heading_of_not_isHeader (h : ¬ IsHeader line) : heading line = none := by
  rw [IsHeader, ne_eq, not_not] at h
  rw [heading, readHeader, h]
  split <;> rfl

theorem body_of_statement (hstatement : isStatement (Text.trim line) = true)
    (hheader : ¬ IsHeader line) : body line = Text.trim line := by
  rw [IsHeader, ne_eq, not_not] at hheader
  rw [body, if_pos hstatement, readHeader, hheader]

theorem declared_of_unmarked (hstatement : isStatement (Text.trim line) = true)
    (hheader : ¬ IsHeader line) (h : ∀ c ∈ Text.trim line, c ∉ marks) : declared line = [] := by
  have hnone : ∀ b ∈ brackets, ¬ b.StandsIn (Text.trim line) := by
    intro b hb
    exact Bracket.not_standsIn_of_unmarked hb h
  rw [declared, body_of_statement hstatement hheader, allDeclarations_of_not_standsIn hnone]

/-- A line without an arrow head joins nothing. -/
theorem joined_of_not_mem (hstatement : isStatement (Text.trim line) = true)
    (hheader : ¬ IsHeader line) (h : '>' ∉ Text.trim line) : joined line = [] := by
  rw [joined, body_of_statement hstatement hheader]
  apply edges_of_not_mem
  exact mt mem_of_mem_foldl_takeOut h

/-- What one line does to a graph. -/
theorem readLine_trim (h : isStatement (Text.trim line) = true) (g : Graph) :
    readLine g (Text.trim line) = {
      direction := (heading line).getD g.direction
      nodes := ((declared line).foldl Graph.addNode g).nodes
      edges := g.edges ++ joined line } := by
  generalize hhead : { g with direction := (readHeader (Text.trim line)).1.getD g.direction } = head
  have hread : readLine g (Text.trim line) = (edges (allDeclarations
      (readHeader (Text.trim line)).2).1).foldl Graph.addEdge
        ((allDeclarations (readHeader (Text.trim line)).2).2.foldl Graph.addNode head) := by
    rw [← hhead]
    rfl
  have hnodes := Graph.nodes_foldl_addNode_congr (h := g) (g := head) (by rw [← hhead])
    (allDeclarations (readHeader (Text.trim line)).2).2
  rw [hread, Graph.foldl_addEdge, Graph.edges_foldl_addNode, Graph.direction_foldl_addNode, hnodes,
    heading, declared, joined, body, if_pos h, if_pos h, ← hhead]

theorem effect_of_not_statement (h : isStatement (Text.trim line) ≠ true) :
    heading line = none ∧ declared line = [] ∧ joined line = [] := by
  have hnil : allDeclarations [] = ([], []) := by
    apply allDeclarations_of_not_standsIn
    intro b hb
    exact Bracket.not_standsIn_of_unmarked hb (List.forall_mem_nil _)
  refine ⟨if_neg h, ?_, ?_⟩
  · rw [declared, body, if_neg h, hnil]
  · rw [joined, body, if_neg h, hnil]
    exact edges_of_not_mem List.not_mem_nil

/-! ## All lines -/

/-- The direction that the last header sets. -/
def headingOf (lines : List (List Char)) (d : Direction) : Direction :=
  lines.foldl (fun d line => (heading line).getD d) d

theorem foldl_readLine (lines : List (List Char)) (g : Graph) :
    ((lines.map Text.trim).filter isStatement).foldl readLine g = {
      direction := headingOf lines g.direction
      nodes := ((lines.flatMap declared).foldl Graph.addNode g).nodes
      edges := g.edges ++ lines.flatMap joined } := by
  induction lines generalizing g with
  | nil =>
    simp only [List.flatMap_nil, List.append_nil]
    rfl
  | cons line lines ih =>
    rw [List.map_cons, List.filter_cons, headingOf, List.foldl_cons, List.flatMap_cons,
      List.flatMap_cons, List.foldl_append, ← headingOf]
    by_cases hstatement : isStatement (Text.trim line) = true
    · have hnodes := Graph.nodes_foldl_addNode_congr (h := (declared line).foldl Graph.addNode g)
        (g := readLine g (Text.trim line)) (by rw [readLine_trim hstatement])
        (lines.flatMap declared)
      rw [if_pos hstatement, List.foldl_cons, ih, hnodes, readLine_trim hstatement,
        List.append_assoc]
    · obtain ⟨hheading, hdeclared, hjoined⟩ := effect_of_not_statement hstatement
      rw [if_neg hstatement, ih, hheading, hdeclared, hjoined]
      rfl

/-- The graph of a flowchart: the declared nodes come first, then the ids that only edges name. -/
theorem readLines_eq (lines : List (List Char)) : readLines lines = declareEnds {
      direction := headingOf lines .tb
      nodes := ((lines.flatMap declared).foldl Graph.addNode .empty).nodes
      edges := lines.flatMap joined } (lines.flatMap joined) := by
  rw [readLines, foldl_readLine]
  rfl

theorem readLines_trim (cs : List Char) :
    readLines (Text.lines (Text.trim cs)) = readLines (Text.lines cs) := by
  have hfilter : ((Text.lines (Text.trim cs)).map Text.trim).filter isStatement
      = ((Text.lines cs).map Text.trim).filter isStatement := by
    rw [Text.filter_trim_lines rfl, Text.filter_trim_lines rfl, Text.filledLines_trim]
  rw [readLines, hfilter, readLines]

theorem parse_eq (s : String) : parse (some s) = if Text.trim s.toList = [] then .error .blank
    else finish .flowchart (readLines (Text.lines s.toList)) := by
  rw [parse, sourceLines_eq, Option.getD_some]
  split
  · rfl
  · rw [← readLines_trim]
    rfl

/-! ## Lines that change places -/

theorem readLines_of_swapped (ha : ¬ IsHeader a) (hb : ¬ IsHeader b)
    (h : joined a = [] ∧ declared b = [] ∨ declared a = [] ∧ joined b = []) :
    readLines (before ++ a :: b :: behind) = readLines (before ++ b :: a :: behind) := by
  have hheading : headingOf (before ++ a :: b :: behind) .tb
      = headingOf (before ++ b :: a :: behind) .tb := by
    simp only [headingOf, List.foldl_append, List.foldl_cons, heading_of_not_isHeader ha,
      heading_of_not_isHeader hb, Option.getD_none]
  have heffect : (before ++ a :: b :: behind).flatMap declared
        = (before ++ b :: a :: behind).flatMap declared ∧
      (before ++ a :: b :: behind).flatMap joined
        = (before ++ b :: a :: behind).flatMap joined := by
    rcases h with ⟨hjoined, hdeclared⟩ | ⟨hdeclared, hjoined⟩ <;>
      simp only [List.flatMap_append, List.flatMap_cons, hdeclared, hjoined, List.nil_append,
        and_self]
  rw [readLines_eq, readLines_eq, hheading, heffect.1, heffect.2]

/-- Two neighbouring lines that are no headers may change places if one of them has no edges and the
other declares no nodes: the source yields the same graph or is refused for the same reason. -/
theorem parse_of_swapped {s t : String}
    (hs : Text.lines s.toList = before ++ a :: b :: behind)
    (ht : Text.lines t.toList = before ++ b :: a :: behind) (ha : ¬ IsHeader a) (hb : ¬ IsHeader b)
    (h : joined a = [] ∧ declared b = [] ∨ declared a = [] ∧ joined b = []) :
    parse (some s) = parse (some t) := by
  have hperm : (Text.lines s.toList).Perm (Text.lines t.toList) := by
    rw [hs, ht]
    exact (List.Perm.swap b a behind).append_left before
  have hblank : Text.trim s.toList = [] ↔ Text.trim t.toList = [] := by
    rw [← Text.filledLines_eq_nil_iff, ← Text.filledLines_eq_nil_iff, ← List.length_eq_zero_iff,
      ← List.length_eq_zero_iff, Text.filledLines, Text.filledLines,
      ((hperm.map Text.trim).filter _).length_eq]
  rw [parse_eq, parse_eq, hs, ht, readLines_of_swapped ha hb h]
  exact if_congr hblank rfl rfl

/-- A header, a comment and lines that end in different ways stand around the two lines. One of them
declares an id twice, the other names an id that is declared below. -/
theorem parse_of_swapped_choice :
    parse (some "flowchart LR\r\n  B\x7bGo\x7d A(Go) B[No]\r\nA --> B -.->|yes| C\n%% C[x]\nC[End]")
      = parse (some
        "flowchart LR\r\nA --> B -.->|yes| C\n  B\x7bGo\x7d A(Go) B[No]\r\n%% C[x]\nC[End]") := by
  have hstatement : isStatement (Text.trim "  B\x7bGo\x7d A(Go) B[No]".toList) = true ∧
      isStatement (Text.trim "A --> B -.->|yes| C".toList) = true := by decide
  have hdeclaring : ¬ IsHeader "  B\x7bGo\x7d A(Go) B[No]".toList := by decide
  have hjoining : ¬ IsHeader "A --> B -.->|yes| C".toList := by decide
  have hjoined := joined_of_not_mem hstatement.1 hdeclaring (by decide)
  have hdeclared := declared_of_unmarked hstatement.2 hjoining (by decide)
  have hlines : Text.lines
      "flowchart LR\r\n  B\x7bGo\x7d A(Go) B[No]\r\nA --> B -.->|yes| C\n%% C[x]\nC[End]".toList
        = ["flowchart LR".toList] ++ "  B\x7bGo\x7d A(Go) B[No]".toList ::
          "A --> B -.->|yes| C".toList :: ["%% C[x]".toList, "C[End]".toList] := by decide
  exact parse_of_swapped hlines (by decide) hdeclaring hjoining (.inl ⟨hjoined, hdeclared⟩)

end Whiteboard.Diagram.Flowchart
