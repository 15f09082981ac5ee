import Whiteboard.Named

/-!
# Graphs

A diagram before it is drawn: nodes with a label and a shape, directed edges, and the direction in
which the layers follow one another. The order of nodes and edges matters. Node ids are kept
distinct by `addNode`, but a graph that comes from outside may repeat them.
-/

namespace Whiteboard

inductive NodeShape where
  | rectangle
  | rounded
  | circle
  | diamond
  | parallelogram
  deriving DecidableEq, Repr

instance : Named NodeShape where
  title := "NodeShape"
  values := [.rectangle, .rounded, .circle, .diamond, .parallelogram]
  name
    | .rectangle => "rectangle"
    | .rounded => "rounded"
    | .circle => "circle"
    | .diamond => "diamond"
    | .parallelogram => "parallelogram"

inductive EdgeKind where
  | arrow
  | dotted
  | thick
  deriving DecidableEq, Repr

instance : Named EdgeKind where
  title := "EdgeType"
  values := [.arrow, .dotted, .thick]
  name
    | .arrow => "arrow"
    | .dotted => "dotted"
    | .thick => "thick"

/-- Where the layers of a graph go; `tb` and `td` both mean downwards. -/
inductive Direction where
  | tb
  | td
  | lr
  | rl
  | bt
  deriving DecidableEq, Repr

instance : Named Direction where
  title := "Direction"
  values := [.tb, .td, .lr, .rl, .bt]
  name
    | .tb => "TB"
    | .td => "TD"
    | .lr => "LR"
    | .rl => "RL"
    | .bt => "BT"

namespace Direction

def isHorizontal (d : Direction) : Bool := d = lr || d = rl

/-- Whether the last layer comes first on the page. -/
def isReversed (d : Direction) : Bool := d = rl || d = bt

end Direction

/-- A node; `level` is its depth in an outline. -/
structure Node where
  id : String
  label : String
  shape : NodeShape := .rectangle
  level : Option Int := none
  fill : Option String := none
  border : Option String := none
  isDecision : Bool := false
  deriving DecidableEq, Repr

/-- A plain node labelled by its id. -/
def Node.bare (id : String) : Node := { id, label := id }

structure Edge where
  source : String
  target : String
  label : String := ""
  kind : EdgeKind := .arrow
  deriving DecidableEq, Repr

structure Graph where
  direction : Direction := .tb
  nodes : List Node := []
  edges : List Edge := []
  deriving DecidableEq, Repr

namespace Graph

def empty : Graph := {}

def nodeIds (g : Graph) : List String := g.nodes.map (·.id)

/-- The first node with an id. -/
def node? (g : Graph) (id : String) : Option Node := g.nodes.find? (·.id == id)

def hasNode (g : Graph) (id : String) : Bool := (g.node? id).isSome

/-- Adds a node unless its id is taken. -/
def addNode (g : Graph) (n : Node) : Graph :=
  if g.hasNode n.id then g else { g with nodes := g.nodes ++ [n] }

/-- Adds a bare node for an id that is not declared. -/
def ensureNode (g : Graph) (id : String) : Graph := g.addNode (.bare id)

def addEdge (g : Graph) (e : Edge) : Graph := { g with edges := g.edges ++ [e] }

/-- Outlines are the graphs all of whose nodes have a level. -/
def isOutline (g : Graph) : Bool := !g.nodes.isEmpty && g.nodes.all (·.level.isSome)

end Graph

end Whiteboard
