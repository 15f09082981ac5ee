import Whiteboard.Diagram
import Whiteboard.Drawing.Color
import Whiteboard.Drawing.Connector
import Whiteboard.Drawing.Label
import Whiteboard.Element.Codec
import Whiteboard.Graph.Layout

/-!
# Drawing diagrams

Turning a laid out graph into elements: a shape for each node, an arrow for each edge, bound to the
shapes at its ends, and for outlines the rails on both sides of the trunk, to which stubs lead from
its nodes.
-/

namespace Whiteboard

/-- How a graph is drawn. -/
structure DrawingStyle (α : Type) where
  bend : Bool
  palette : Palette
  strength : α
  spacing : Spacing α

/-- Why a diagram cannot be drawn. -/
inductive DrawingError where
  | source (error : Diagram.SourceError)
  | layout (error : LayoutError)
  /-- The digits of a color are none. -/
  | color (digits : String)
  deriving DecidableEq, Repr

/-- What comes of drawing, and the ids that are left, also where it breaks off. -/
abbrev Drafting (β : Type) := Except DrawingError β × IdSupply

namespace Drafting

variable {β γ : Type}

/-- Goes on unless the drawing broke off. -/
def andThen (d : Drafting β) (f : β → IdSupply → Drafting γ) : Drafting γ :=
  match d with
  | (.ok v, ids) => f v ids
  | (.error e, ids) => (.error e, ids)

end Drafting

/-- The value of a check as a part of a drawing. -/
def Checked.toDrawing {β : Type} : Checked β → Except DrawingError β
  | .ok v => .ok v
  | .bad issues => .error (.layout (.invalid issues))

namespace DrawingStyle

variable {α : Type} [Scalar α]

def initial : DrawingStyle α := ⟨true, .colorful, 0.7, Layout.defaultSpacing⟩

end DrawingStyle

namespace Drawing

variable {α : Type} [Scalar α]

/-! ## Nodes -/

/-- The shape in which a node is drawn. -/
def shapeKind : NodeShape → ShapeKind
  | .rectangle | .rounded => .roundedRectangle
  | .circle => .circle
  | .diamond | .parallelogram => .rectangle

/-- The lines of a label. -/
def labelLines (label : List Char) : List (List Char) := label.splitOn '\n'

/-- The width that the lines of a label ask for. -/
def textWidth (label : List Char) : Nat :=
  min 400 (((labelLines label).map List.length).foldl max 0 * 12 + 60)

/-- The height that the lines of a label ask for. -/
def textHeight (label : List Char) : Nat := (labelLines label).length * 20 + 30

def fontFamily : String := "Arial, sans-serif"

/-- A text, or another one in place of none or of an empty one. -/
def given (text : Option String) (default : String) : String :=
  match text with
  | none | some "" => default
  | some s => s

/-- The size of the text of a node: smaller further down. -/
def textSize (depth : Int) : Except DrawingError α :=
  let size := max 12 (16 - depth)
  if Scalar.holdsInt α size then .ok (Scalar.ofInt size)
  else .error (.layout (.invalid [⟨["font_size"], .numberExpected⟩]))

/-- The width of the border of a node: thinner further down. -/
def borderWidth (depth : Int) : Except DrawingError α :=
  if Scalar.holdsInt α depth then .ok (Scalar.greater 2 (4 - Scalar.ofInt depth * 0.5))
  else .error (.layout .outOfRange)

/-- The color of text on a background. -/
def textColor (α : Type) [Scalar α] (background : String) : Except DrawingError String :=
  (Color.readable α background).mapError .color

/-- The column of the nodes outside the trunk of an outline. -/
def sideColumn : α := 600

/-- The shape of a node around its place. In outlines, nodes outside the trunk share a column. -/
def nodeElement (style : DrawingStyle α) (origin : Point α) (isOutline : Bool)
    (place : Place α) (n : Node) (mark : String) : Except DrawingError (Element α) := do
  let label := Label.wrap Label.width n.label.toList
  let width := Scalar.greater place.width (Scalar.ofNat (textWidth label))
  let height := Scalar.greater place.height (Scalar.ofNat (textHeight label))
  let fill := given n.fill (Color.ofNode n.id style.palette)
  let stroke ← borderWidth n.depth
  let color ← textColor α fill
  let size ← textSize n.depth
  let kind := shapeKind n.shape
  let frame : Frame α :=
    { id := "node-" ++ n.id ++ "-" ++ mark
      x := if isOutline && n.isOffTrunk then origin.x + sideColumn
        else origin.x + place.x - width / 2
      y := origin.y + place.y - height / 2
      width
      height
      rotation := 0
      zIndex := 0 }
  return .shape frame kind
    { Shape.initial with
      fill
      border := given n.border (Color.ofBorder n.id style.palette)
      borderWidth := stroke
      cornerRadius := if kind = .roundedRectangle then some 10 else none
      content := some (String.ofList label)
      textStyle := some
        { (TextStyle.initial : TextStyle α) with
          family := fontFamily
          size
          color
          bold := n.depth = 0 } }

/-- The shapes of nodes by node id; the last node with an id counts. -/
def nodeElements (style : DrawingStyle α) (origin : Point α) (isOutline : Bool)
    (places : Entries (Place α)) :
    List Node → Entries (Element α) → IdSupply → Drafting (Entries (Element α))
  | [], drawn, ids => (.ok drawn, ids)
  | n :: rest, drawn, ids =>
    match Entries.get? n.id places with
    | none => (.error (.layout (.unplaced n.id)), ids)
    | some place =>
      Drafting.andThen (nodeElement style origin isOutline place n ids.shortId, ids.next)
        fun e ids => nodeElements style origin isOutline places rest (Entries.set n.id e drawn) ids

/-! ## Layers -/

/-- The shapes of the nodes of a layer. -/
def layerElements (drawn : Entries (Element α)) :
    List String → Except DrawingError (List (Element α))
  | [] => .ok []
  | id :: rest =>
    match Entries.get? id drawn with
    | none => .error (.layout (.unplaced id))
    | some e => (layerElements drawn rest).map (e :: ·)

/-- Puts the middle of an element at a place. -/
def centerAt (origin : Point α) (center : α × α) (e : Element α) : Element α :=
  e.moveTo (origin.x + center.1 - e.width / 2) (origin.y + center.2 - e.height / 2)

/-- Packs a layer again, now that the widths of its texts are known. -/
def packLayer (style : DrawingStyle α) (origin : Point α) (horizontal : Bool) (rank : Int)
    (layer : List String) (drawn : Entries (Element α)) :
    Except DrawingError (Entries (Element α)) :=
  (layerElements drawn layer).map fun elements =>
    let centers := Layout.centers (elements.map Element.width) rank horizontal style.spacing
    (layer.zip (elements.zip centers)).foldl (fun drawn (id, e, center) =>
      Entries.set id (centerAt origin center e) drawn) drawn

/-- Packs the layers from the `i`-th of `count` on. -/
def packLayers (style : DrawingStyle α) (origin : Point α) (direction : Direction) (count : Nat) :
    Nat → List (List String) → Entries (Element α) → Except DrawingError (Entries (Element α))
  | _, [], drawn => .ok drawn
  | i, layer :: rest, drawn =>
    (packLayer style origin direction.isHorizontal (Layout.rankOf direction count i) layer
      drawn).bind (packLayers style origin direction count (i + 1) rest)

/-! ## Edges -/

/-- The frame that spans two points, no side of it being zero. -/
def spanFrame (id : String) (a b : Point α) : Frame α :=
  let left := Scalar.lesser a.x b.x
  let top := Scalar.lesser a.y b.y
  { id
    x := left
    y := top
    width := Scalar.orElse (Scalar.greater a.x b.x - left) 1
    height := Scalar.orElse (Scalar.greater a.y b.y - top) 1
    rotation := 0
    zIndex := 0 }

/-- The text style of the label of an arrow. -/
def edgeText : TextStyle α :=
  { (TextStyle.initial : TextStyle α) with family := fontFamily, size := 12, color := "#1e293b" }

/-- The arrow of an edge between two shapes, from border to border. -/
def edgeElement (edge : Edge) (source target : Element α) (curve : α) (mark : String) :
    Except DrawingError (Element α) := do
  let a := source.center
  let b := target.center
  let id := "arrow-" ++ edge.source ++ "-" ++ edge.target ++ "-" ++ mark
  let frame ← (spanFrame id a b).checked.toDrawing
  let start := Connector.exit a source.width source.height b
  let finish := Connector.exit b target.width target.height a
  let (startSide, finishSide) := Connector.sides (b.x - a.x) (b.y - a.y)
  let stroke : α := if edge.kind = .thick then 3 else 2
  let color := Color.ofEdge edge.kind
  return .shape frame .arrow
    { fill := color
      borderWidth := stroke
      border := color
      cornerRadius := none
      content := some edge.label
      textStyle := if edge.label.isEmpty then none else some edgeText
      ranges := []
      start := some ⟨start.x - frame.x, start.y - frame.y⟩
      finish := some ⟨finish.x - frame.x, finish.y - frame.y⟩
      headSize := some 12
      tailWidth := some stroke
      curve := some curve
      startBinding := some ⟨source.id, startSide⟩
      finishBinding := some ⟨target.id, finishSide⟩ }

/-- Whether two edges have the same source and the same target. -/
def sameEnds (e f : Edge) : Bool := e.source == f.source && e.target == f.target

/-- The curve of an edge that follows the edges `before` in a graph. -/
def curveOf (style : DrawingStyle α) (g : Graph) (before : List Edge) (edge : Edge) : α :=
  Connector.curve style.bend style.strength (before.countP (sameEnds edge))
    (g.edges.countP (sameEnds edge))

/-- The arrows of the edges that follow `before`; edges without shapes at their ends are left
out. -/
def arrowsAfter (style : DrawingStyle α) (g : Graph) (drawn : Entries (Element α))
    (before : List Edge) : List Edge → IdSupply → Drafting (List (Element α))
  | [], ids => (.ok [], ids)
  | edge :: rest, ids =>
    match Entries.get? edge.source drawn, Entries.get? edge.target drawn with
    | some source, some target =>
      let curve := curveOf style g before edge
      Drafting.andThen (edgeElement edge source target curve ids.shortId, ids.next)
        fun arrow ids =>
          (arrowsAfter style g drawn (before ++ [edge]) rest ids).andThen fun arrows ids =>
            (.ok (arrow :: arrows), ids)
    | _, _ => arrowsAfter style g drawn (before ++ [edge]) rest ids

/-! ## Rails -/

/-- A straight line without a head, from a point along `(dx, dy)`. -/
def line (id : String) (p : Point α) (dx dy : α) (color : String) (stroke : α) :
    Except DrawingError (Element α) := do
  let width := Scalar.greater (Scalar.abs dx) 1
  let height := Scalar.greater (Scalar.abs dy) 1
  let frame ← (⟨id, p.x, p.y, width, height, 0, 0⟩ : Frame α).checked.toDrawing
  return .shape frame .arrow
    { Shape.initial with
      fill := color
      borderWidth := stroke
      border := color
      start := some ⟨0, 0⟩
      finish := some ⟨dx, dy⟩
      headSize := some 0
      tailWidth := some stroke
      curve := some 0 }

/-- The distance between the trunk and a rail. -/
def railMargin : α := 80

/-- How far both ends of the rails together stand out beyond the trunk. -/
def railOverhang : α := 100

/-- The line from a node of the trunk to the nearer one of two rails. -/
def stub (left right middle : α) (e : Element α) : Except DrawingError (Element α) :=
  let center := e.center
  if center.x < middle then
    line ("connector-" ++ e.id ++ "-left") ⟨left, center.y⟩ (e.x - left) 0 "#CBD5E1" 1
  else
    let edge := e.frame.right
    line ("connector-" ++ e.id ++ "-right") ⟨edge, center.y⟩ (right - edge) 0 "#CBD5E1" 1

/-- The stubs and the rails of a trunk. -/
def rails (trunk : List (Element α)) (ids : IdSupply) :
    Drafting (List (Element α) × List (Element α)) :=
  match trunk.map Element.frame with
  | [] => (.ok ([], []), ids)
  | f :: rest =>
    let minX := Scalar.least f.x (rest.map Frame.x)
    let maxX := Scalar.greatest f.right (rest.map Frame.right)
    let minY := Scalar.least f.y (rest.map Frame.y)
    let maxY := Scalar.greatest f.bottom (rest.map Frame.bottom)
    let left := minX - railMargin
    let right := maxX + railMargin
    let top := minY - railOverhang / 2
    let rail (name : String) (x : α) (ids : IdSupply) : Drafting (Element α) :=
      (line (name ++ ids.shortId) ⟨x, top⟩ 0 (maxY - minY + railOverhang) "#94A3B8" 2, ids.next)
    (rail "guide-left-" left ids).andThen fun leftRail ids =>
      (rail "guide-right-" right ids).andThen fun rightRail ids =>
        ((trunk.mapM (stub left right ((minX + maxX) / 2))).map (·, [leftRail, rightRail]), ids)

/-- The shapes of the nodes that make up the trunk of an outline. -/
def trunkOf (g : Graph) (drawn : Entries (Element α)) : List (Element α) :=
  (g.nodes.filter fun n => !n.isOffTrunk).filterMap fun n => Entries.get? n.id drawn

/-- The stubs and rails of an outline of several layers. -/
def scaffolding (g : Graph) (layers : Nat) (drawn : Entries (Element α)) (ids : IdSupply) :
    Drafting (List (Element α) × List (Element α)) :=
  if g.isOutline && 1 < layers then rails (trunkOf g drawn) ids else (.ok ([], []), ids)

/-! ## Graphs -/

/-- The elements of a laid out graph: the nodes, the stubs, the arrows and the rails, one upon the
other. -/
def ofLayout (ids : IdSupply) (g : Graph) (layout : Layout α) (origin : Point α)
    (style : DrawingStyle α) : Drafting (List (Element α)) :=
  (nodeElements style origin g.isOutline layout.places g.nodes [] ids).andThen fun drawn ids =>
    Drafting.andThen
      (packLayers style origin g.direction layout.layers.length 0 layout.layers drawn, ids)
      fun drawn ids =>
        (arrowsAfter style g drawn [] g.edges ids).andThen fun arrows ids =>
          (scaffolding g layout.layers.length drawn ids).andThen fun (stubs, rails) ids =>
            (.ok (Element.renumbered (drawn.map (·.2) ++ stubs ++ arrows ++ rails)), ids)

/-- The elements of a graph, laid out as suits it. -/
def ofGraph (ids : IdSupply) (g : Graph) (origin : Point α) (style : DrawingStyle α) :
    Drafting (List (Element α)) :=
  match Layout.choose g style.spacing with
  | .error e => (.error (.layout e), ids)
  | .ok layout => ofLayout ids g layout origin style

/-- The elements of a diagram source. -/
def ofSource (ids : IdSupply) (source format : Option String) (origin : Point α)
    (style : DrawingStyle α) : Drafting (List (Element α)) :=
  match Diagram.parse source format with
  | .error e => (.error (.source e), ids)
  | .ok g => ofGraph ids g origin style

end Drawing

end Whiteboard
