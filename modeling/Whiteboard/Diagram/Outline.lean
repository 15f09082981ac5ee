import Whiteboard.Diagram.Source
import Whiteboard.Text.Scan
import Whiteboard.Text.Word

/-!
# Outlines

An outline is a nested list, one item a line behind `-`, `*`, `+` or a number and a point. Every two
blanks of indentation are a level. An edge joins each item to the nearest item above it that is
less deep. Items that ask or decide become diamonds.
-/

namespace Whiteboard.Diagram.Outline

/-- Texts that make an item a decision. -/
def decisionMarks : List String :=
  ["否", "是", "？", "?", "决策", "判断", "条件", "decision", "condition"]

/-- Whether a text holds a decision mark, in any case. Only ASCII letters change case into letters
of the marks. -/
def isDecision (text : String) : Bool :=
  let lower := text.toList.map Char.toLower
  decisionMarks.any fun mark => Text.contains mark.toList lower

/-- The shape of an item at a level. -/
def shapeAt (level : Int) (decides : Bool) : NodeShape :=
  if decides then .diamond
  else if level = 0 then .rounded
  else if level = 1 then .rectangle
  else .circle

/-- Fill and border colors by level; deeper levels take the last pair. -/
def levelColors : List (String × String) :=
  [("#3B82F6", "#1E40AF"), ("#10B981", "#047857"), ("#F59E0B", "#D97706"),
    ("#8B5CF6", "#6D28D9"), ("#EC4899", "#BE185D"), ("#06B6D4", "#0891B2")]

/-- The colors of a level. -/
def colorsAt (level : Nat) : String × String :=
  (levelColors[level]?).getD ("#06B6D4", "#0891B2")

/-- The text behind the marker of an item. -/
def dropMarker? : List Char → Option (List Char)
  | '-' :: rest => some rest
  | '*' :: rest => some rest
  | '+' :: rest => some rest
  | cs =>
    match Text.span Text.isDigit cs with
    | ([], _) => none
    | (_, '.' :: rest) => some rest
    | _ => none

/-- An item: its indentation and its content. Blanks alone are content if there are two of them,
one to set it apart. -/
def item? (line : List Char) : Option (Nat × List Char) :=
  let (indent, marked) := Text.spanBlank line
  match dropMarker? marked with
  | none => none
  | some rest =>
    match Text.spanBlank rest with
    | ([], _) => none
    | (_, c :: content) => some (indent.length, c :: content)
    | (blanks, []) => if blanks.length < 2 then none else some (indent.length, blanks.drop 1)

/-- What was read so far: the graph and the chain of items that later ones may belong to, the
deepest first. -/
structure Progress where
  graph : Graph := .empty
  chain : List (String × Nat) := []

/-- The items of a chain that are less deep than a level. -/
def ancestors (level : Nat) (chain : List (String × Nat)) : List (String × Nat) :=
  chain.dropWhile fun (_, l) => level ≤ l

/-- The node of the `n`-th item. -/
def nodeOf (n level : Nat) (label : String) : Node :=
  let decides := isDecision label
  let (fill, border) := colorsAt level
  { id := s!"node{n}", label, shape := shapeAt level decides, level := some level,
    fill := some fill, border := some border, isDecision := decides }

/-- Adds an item. -/
def Progress.add (p : Progress) (indent : Nat) (content : List Char) : Progress :=
  let level := indent / 2
  let node := nodeOf p.graph.nodes.length level (String.ofList (Text.trim content))
  let chain := ancestors level p.chain
  let graph := p.graph.addNode node
  { graph := match chain with
      | (parent, _) :: _ => graph.addEdge { source := parent, target := node.id }
      | [] => graph
    chain := (node.id, level) :: chain }

/-- Adds the item of a line; lines that are no item count for nothing. -/
def Progress.addLine (p : Progress) (line : List Char) : Progress :=
  match item? line with
  | some (indent, content) => p.add indent content
  | none => p

/-- Reads all lines of an outline. -/
def readLines (lines : List (List Char)) : Graph := (lines.foldl Progress.addLine {}).graph

/-- Reads an outline. -/
def parse (source : Option String) : Except SourceError Graph :=
  (sourceLines source).bind fun lines => finish .outline (readLines lines)

end Whiteboard.Diagram.Outline
