import Whiteboard.Proofs.Diagram.WellFormed
import Whiteboard.Proofs.Text.Line

/-!
# Reading line by line

Of a source only its statements are read (`Uml.parse_eq`), each in the state that those before it
leave. Reading adds nodes and takes none away (`Uml.isPrefix_readLine`).
-/

namespace Whiteboard.Diagram.Uml

variable {p : Progress} {line : List Char} {lines before behind : List (List Char)}

/-- The statements among lines. -/
def statements (lines : List (List Char)) : List (List Char) :=
  (lines.map Text.trim).filter isStatement

/-- What is read from lines. -/
def readAll (lines : List (List Char)) : Progress := (statements lines).foldl readLine {}

theorem readLines_eq (lines : List (List Char)) :
    readLines lines = (readAll lines).closeClass.graph := rfl

theorem readAll_append (before behind : List (List Char)) :
    readAll (before ++ behind) = (statements behind).foldl readLine (readAll before) := by
  rw [readAll, statements, List.map_append, List.filter_append, List.foldl_append]
  rfl

theorem statements_trim (cs : List Char) :
    statements (Text.lines (Text.trim cs)) = statements (Text.lines cs) := by
  rw [statements, statements, Text.filter_trim_lines rfl, Text.filter_trim_lines rfl,
    Text.filledLines_trim]

theorem parse_eq (s : String) : parse (some s) = if Text.trim s.toList = [] then .error .blank
    else finish .uml (readLines (Text.lines s.toList)) := by
  rw [parse, sourceLines_eq, Option.getD_some]
  split
  · rfl
  · rw [readLines_eq, readAll, ← statements_trim]
    rfl

/-- A source with a node is read. -/
theorem parse_of_ne_nil {s : String} (h : (readLines (Text.lines s.toList)).nodes ≠ []) :
    parse (some s) = .ok (readLines (Text.lines s.toList)) := by
  have hne : Text.trim s.toList ≠ [] := by
    intro hnil
    apply h
    rw [readLines_eq, readAll, ← statements_trim, hnil]
    rfl
  rw [parse_eq, if_neg hne, finish_of_wellFormed (wellFormed_readLines _), if_neg h]

theorem closeClass_of_none (h : p.openClass = none) : p.closeClass = p := by
  rw [Progress.closeClass, h]

/-! ## Nodes stay -/

theorem isPrefix_addStep (p : Progress) (n : Node) :
    p.graph.nodes <+: (p.addStep n).graph.nodes := by
  have hadd := Graph.isPrefix_addNode p.graph n
  unfold Progress.addStep
  dsimp only
  split
  · exact hadd
  · split <;> exact hadd

theorem isPrefix_closeClass (p : Progress) : p.graph.nodes <+: p.closeClass.graph.nodes := by
  unfold Progress.closeClass
  split
  · exact List.prefix_rfl
  · exact Graph.isPrefix_addNode _ _

/-- One case for each form of statement. -/
theorem isPrefix_readStatement (p : Progress) (line : List Char) :
    p.graph.nodes <+: (readStatement p line).graph.nodes := by
  unfold readStatement
  split
  · unfold readClass
    split
    · exact Graph.isPrefix_addNode _ _
    · split
      · exact Graph.isPrefix_addNode _ _
      · exact List.prefix_rfl
  · split
    · exact Graph.isPrefix_addNode _ _
    · split
      · exact isPrefix_addStep p _
      · split
        · exact (Graph.isPrefix_addNode _ _).trans (Graph.isPrefix_addNode _ _)
        · exact List.prefix_rfl

theorem isPrefix_readLine (p : Progress) (line : List Char) :
    p.graph.nodes <+: (readLine p line).graph.nodes := by
  unfold readLine
  split
  · unfold Progress.addMember
    split
    · exact List.prefix_rfl
    · exact isPrefix_closeClass { p with openClass := some (_, _) }
  · exact isPrefix_readStatement p line

theorem isPrefix_foldl_readLine (p : Progress) (lines : List (List Char)) :
    p.graph.nodes <+: (lines.foldl readLine p).graph.nodes := by
  induction lines generalizing p with
  | nil => exact List.prefix_rfl
  | cons line lines ih => exact (isPrefix_readLine p line).trans (ih _)

theorem isPrefix_readAll (before behind : List (List Char)) :
    (readAll before).graph.nodes <+: (readAll (before ++ behind)).graph.nodes := by
  rw [readAll_append]
  exact isPrefix_foldl_readLine _ _

theorem readAll_concat (h : isStatement (Text.trim line) = true)
    (hopen : (readAll lines).openClass = none) :
    readAll (lines ++ [line]) = readStatement (readAll lines) (Text.trim line) := by
  have hstatements : statements [line] = [Text.trim line] := by
    rw [statements, List.map_singleton, List.filter_singleton, h]
    rfl
  rw [readAll_append, hstatements, List.foldl_cons, List.foldl_nil, readLine, hopen]

theorem readAll_concat_of_not_statement (h : isStatement (Text.trim line) = false) :
    readAll (lines ++ [line]) = readAll lines := by
  have hstatements : statements [line] = [] := by
    rw [statements, List.map_singleton, List.filter_singleton, h]
    rfl
  rw [readAll_append, hstatements, List.foldl_nil]

end Whiteboard.Diagram.Uml
