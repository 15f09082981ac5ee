import Whiteboard.Diagram.Flowchart
import Whiteboard.Diagram.Outline
import Whiteboard.Diagram.Uml

/-!
# Diagrams of any format

A source may come with the name of its format or without; the format is then guessed from its first
line that is neither blank nor a comment.
-/

namespace Whiteboard.Diagram

/-- A line that begins a flowchart. -/
def beginsFlowchart (line : List Char) : Bool :=
  let rest? :=
    (Text.dropAnyCase? "graph".toList line).or (Text.dropAnyCase? "flowchart".toList line)
  (rest?.bind Text.dropBlanks?).isSome

/-- A line that begins a class, sequence or activity diagram. -/
def beginsUml (line : List Char) : Bool :=
  let blankBehind (word : String) :=
    ((Text.dropWord? word.toList line).bind Text.dropBlanks?).isSome
  "@startuml".toList.isPrefixOf line ||
    (match (Text.dropWord? "class".toList line).bind Text.dropBlanks? with
      | some (c :: _) => Text.isWord c
      | _ => false) ||
    blankBehind "participant" || blankBehind "actor" || line = "start".toList ||
    (match line with
      | ':' :: rest =>
        match Text.span (· != ';') rest with
        | (_ :: _, [';']) => true
        | _ => false
      | _ => false)

/-- A line that begins an outline; its indentation does not matter. -/
def beginsOutline (line : List Char) : Bool :=
  match (Outline.dropMarker? (Text.trimLeft line)).bind Text.dropBlanks? with
  | some (_ :: _) => true
  | _ => false

/-- Whether a line, without blanks around it, tells nothing about the format. -/
def isSilent (line : List Char) : Bool :=
  line.isEmpty || ['%', '%'].isPrefixOf line || ['\''].isPrefixOf line

/-- The format that a first line shows. -/
def formatOfLine (line : List Char) : Format :=
  let bare := Text.trim line
  if beginsFlowchart bare then .flowchart
  else if beginsUml bare then .uml
  else if beginsOutline line then .outline
  else .flowchart

/-- Guesses the format of a source; nothing to go by means a flowchart. -/
def detect (source : Option String) : Format :=
  match (Text.plainLines (source.getD "").toList).find? fun line => !isSilent (Text.trim line) with
  | some line => formatOfLine line
  | none => .flowchart

/-- Reads a source of a known format. -/
def parseAs : Format → Option String → Except SourceError Graph
  | .flowchart => Flowchart.parse
  | .outline => Outline.parse
  | .uml => Uml.parse

/-- Reads a source whose format is given by name or is to be guessed. -/
def parse (source : Option String) (format : Option String) : Except SourceError Graph :=
  match format with
  | none => parseAs (detect source) source
  | some name =>
    match Named.ofName? name with
    | some f => parseAs f source
    | none => .error (.unknownFormat name)

end Whiteboard.Diagram
