import Whiteboard.Graph.Crossing
import Whiteboard.Scalar
import Whiteboard.Schema

/-!
# Layouts

Places for the nodes of a graph, as centers around an origin. Graphs are laid out in layers along
their direction; outlines as a tree with a trunk in the middle and decisions in a column of their
own on the right.
-/

namespace Whiteboard

/-- A node's center and size. -/
structure Place (α : Type) where
  x : α
  y : α
  width : α
  height : α
  deriving Repr

/-- Places by node id, and the ids of each layer. -/
structure Layout (α : Type) where
  places : Entries (Place α)
  layers : List (List String)

/-- The distance from layer to layer. A whole one is multiplied exactly. -/
inductive Pitch (α : Type) where
  | whole (distance : Int)
  | scalar (distance : α)

/-- The gap between nodes of a layer and the distance between layers. -/
structure Spacing (α : Type) where
  node : α
  layer : Pitch α

/-- Why nodes get no places or no measures. -/
inductive LayoutError where
  /-- A node or the end of an edge has no place. -/
  | unplaced (id : String)
  /-- An integer is out of the range of numbers. -/
  | outOfRange
  /-- A measure did not pass the checks. -/
  | invalid (issues : List Issue)
  deriving DecidableEq, Repr

namespace Pitch

variable {α : Type} [Scalar α]

/-- The distance from one layer to the next. -/
def step : Pitch α → α
  | whole distance => Scalar.ofInt distance
  | scalar distance => distance

/-- The distance from the first layer to that of a level. -/
def reach (level : Int) : Pitch α → Except LayoutError α
  | whole distance =>
    let y := level * distance
    if Scalar.holdsInt α y then .ok (Scalar.ofInt y)
    else .error (.invalid [⟨["y"], .numberExpected⟩])
  | scalar distance =>
    if Scalar.holdsInt α level then .ok (Scalar.ofInt level * distance) else .error .outOfRange

end Pitch

namespace Layout

variable {α : Type} [Scalar α]

def toJson (l : Layout α) : Json α :=
  .obj [("layers", .arr (l.layers.map .ofStrings)),
    ("positions", .obj (l.places.map fun (id, p) =>
      (id, .obj [("node_id", .str id), ("x", .num p.x), ("y", .num p.y),
        ("width", .num p.width), ("height", .num p.height)])))]

def defaultSpacing : Spacing α := ⟨160, .whole 220⟩

/-- The width and height of a node whose text is not yet known. -/
def sizeOf : NodeShape → α × α
  | .diamond => (120, 120)
  | .circle => (100, 100)
  | .parallelogram => (160, 70)
  | .rectangle => (160, 80)
  | .rounded => (160, 80)

/-- Centers of boxes packed from `offset` on along a row. -/
def packFrom (gap y offset : α) : List α → List (α × α)
  | [] => []
  | w :: rest => (offset + w / 2, y) :: packFrom gap y (offset + (w + gap)) rest

/-- Centers for the nodes of a layer. Rows pack the widths around the middle; columns space the
nodes evenly, whatever their size. -/
def centers (widths : List α) (rank : Int) (horizontal : Bool) (spacing : Spacing α) :
    List (α × α) :=
  let along := Scalar.ofInt rank * spacing.layer.step
  let count := widths.length
  if horizontal then
    (List.range count).map fun i =>
      (along, (Scalar.ofNat i - Scalar.ofInt ((count : Int) - 1) / 2) * spacing.node)
  else
    let total := Scalar.sum widths + Scalar.ofNat (count - 1) * spacing.node
    packFrom spacing.node along (-total / 2) widths

/-- The rank of a layer along the direction, of `count` layers. -/
def rankOf (direction : Direction) (count i : Nat) : Int :=
  if direction.isReversed then (count : Int) - 1 - i else i

/-- The shape of the last node with an id. -/
def shape? (g : Graph) (id : String) : Option NodeShape :=
  (g.nodes.reverse.find? (·.id == id)).map (·.shape)

/-- The shapes of a layer, if all its ids have nodes; or else the first id that has none. -/
def layerShapes (g : Graph) : List String → Except LayoutError (List NodeShape)
  | [] => .ok []
  | id :: rest =>
    match shape? g id with
    | none => .error (.unplaced id)
    | some shape => (layerShapes g rest).map (shape :: ·)

/-- Sets the places of a layer. -/
def placeLayer (g : Graph) (spacing : Spacing α) (count i : Nat) (layer : List String)
    (places : Entries (Place α)) : Except LayoutError (Entries (Place α)) :=
  (layerShapes g layer).map fun shapes =>
    let sizes := shapes.map sizeOf
    let points := centers (sizes.map (·.1)) (rankOf g.direction count i) g.direction.isHorizontal
      spacing
    (layer.zip (sizes.zip points)).foldl (fun places (id, (width, height), (x, y)) =>
      Entries.set id ⟨x, y, width, height⟩ places) places

/-- Sets the places of layers from the `i`-th on. -/
def placeLayers (g : Graph) (spacing : Spacing α) (count : Nat) :
    Nat → List (List String) → Entries (Place α) → Except LayoutError (Entries (Place α))
  | _, [], places => .ok places
  | i, layer :: rest, places =>
    (placeLayer g spacing count i layer places).bind (placeLayers g spacing count (i + 1) rest)

/-- A layout in layers. It fails at an id that an edge names and no node has. -/
def layered (g : Graph) (spacing : Spacing α) : Except LayoutError (Layout α) :=
  let layers := g.orderedLayers
  (placeLayers g spacing layers.length 0 layers []).map fun places => ⟨places, layers⟩

end Layout

namespace Node

/-- Decisions stand outside the trunk of an outline. -/
def isOffTrunk (n : Node) : Bool := n.isDecision || n.shape = .diamond

/-- The level of a node; a node without one is on level zero. -/
def depth (n : Node) : Int := n.level.getD 0

end Node

namespace Layout

variable {α : Type} [Scalar α]

/-- The width over which the trunk nodes of a level are spread. -/
def trunkWidth : α := 600

/-- The levels on which a list of nodes stands, in ascending order. -/
def levels (nodes : List Node) : List Int := (nodes.map Node.depth).eraseDups.mergeSort (· ≤ ·)

/-- The ids of the nodes on a level. -/
def idsAt (nodes : List Node) (level : Int) : List String :=
  (nodes.filter (·.depth = level)).map (·.id)

/-- The shape of the last node with an id, for ids of nodes. -/
def shapeOf (g : Graph) (id : String) : NodeShape := (shape? g id).getD .rectangle

/-- Sets the places of the trunk nodes of one row, spread evenly; a single node is in the middle. -/
def placeTrunk (g : Graph) (y : α) (row : List String) (places : Entries (Place α)) :
    Entries (Place α) :=
  let share : α := trunkWidth / Scalar.ofNat row.length
  row.zipIdx.foldl (fun places (id, i) =>
    let x := if row.length = 1 then 0 else (Scalar.ofNat i + 0.5) * share - trunkWidth / 2
    let (width, height) := sizeOf (shapeOf g id)
    Entries.set id ⟨x, y, width, height⟩ places) places

/-- Sets the places of the decisions of one level, in a row around the column on the right. -/
def placeDecisions (g : Graph) (y : α) (row : List String) (places : Entries (Place α)) :
    Entries (Place α) :=
  row.zipIdx.foldl (fun places (id, i) =>
    let x := 400 + (Scalar.ofNat i - Scalar.ofNat row.length / 2 + 0.5) * 120
    let size : α := if shapeOf g id = .circle then 100 else 120
    Entries.set id ⟨x, y, size, size⟩ places) places

/-- Sets the places of the decisions of some levels, each at the height of its level. -/
def placeLevels (g : Graph) (pitch : Pitch α) (decisions : List Node) :
    List Int → Entries (Place α) → Except LayoutError (Entries (Place α))
  | [], places => .ok places
  | level :: rest, places =>
    (pitch.reach level).bind fun y =>
      placeLevels g pitch decisions rest (placeDecisions g y (idsAt decisions level) places)

/-- The layout of an outline. Its rows are the levels that have trunk nodes; decisions stand at the
height of their level. -/
def outline (g : Graph) (pitch : Pitch α) : Except LayoutError (Layout α) :=
  let trunk := g.nodes.filter (!·.isOffTrunk)
  let decisions := g.nodes.filter (·.isOffTrunk)
  let layers := (levels trunk).map (idsAt trunk)
  let places := layers.zipIdx.foldl (fun places (row, i) =>
    placeTrunk g (Scalar.ofNat i * pitch.step) row places) []
  (placeLevels g pitch decisions (levels decisions) places).map fun places => ⟨places, layers⟩

/-- The layout that suits a graph. -/
def choose (g : Graph) (spacing : Spacing α) : Except LayoutError (Layout α) :=
  if g.isOutline then outline g spacing.layer else layered g spacing

end Layout

end Whiteboard
