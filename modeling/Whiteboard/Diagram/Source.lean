import Whiteboard.Graph.Finding
import Whiteboard.Text.Line
import Whiteboard.Text.Blank

/-!
# Diagram sources

What the readers of all diagram formats share: the formats, the cutting of a source into lines, and
the last check of a graph before it is handed out.
-/

namespace Whiteboard.Diagram

/-- The formats in which diagrams are written. -/
inductive Format where
  | flowchart
  | outline
  | uml
  deriving DecidableEq, Repr

instance : Named Format where
  title := "DiagramFormat"
  values := [.flowchart, .outline, .uml]
  name
    | .flowchart => "flowchart"
    | .outline => "outline"
    | .uml => "uml"

/-- Why a source yields no graph. -/
inductive SourceError where
  | blank
  | noNodes (format : Format)
  | invalid (finding : Finding)
  | unknownFormat (name : String)
  deriving DecidableEq, Repr

def SourceError.message : SourceError → String
  | blank => "Diagram text is empty"
  | noNodes .flowchart => "No nodes found in flowchart"
  | noNodes .outline => "No valid list items found"
  | noNodes .uml => "No nodes found in UML text"
  | invalid finding => finding.message
  | unknownFormat name => s!"Unknown diagram format: {name}"

/-- The lines of a source without the blanks around it; a blank source has none. -/
def sourceLines (source : Option String) : Except SourceError (List (List Char)) :=
  match Text.trim (source.getD "").toList with
  | [] => .error .blank
  | text => .ok (Text.lines text)

/-- A graph that was read, if it has nodes and no structural error. -/
def finish (format : Format) (g : Graph) : Except SourceError Graph :=
  if g.nodes.isEmpty then .error (.noNodes format)
  else
    match g.findings.find? (·.severity = .error) with
    | some finding => .error (.invalid finding)
    | none => .ok g

end Whiteboard.Diagram
