import Whiteboard.Graph.Codec
import Whiteboard.Graph
import Whiteboard.Json

/-!
# Findings on graphs

What a reader should know about the structure of a graph. Repeated ids and edges to ids without a
node are errors; a graph without errors is valid.
-/

namespace Whiteboard

inductive Severity where
  | error
  | warning
  | info
  deriving DecidableEq, Repr

def Severity.name : Severity → String
  | error => "error"
  | warning => "warning"
  | info => "info"

/-- One finding; edges are told by their position. -/
inductive Finding where
  | noNodes
  | repeatedId (id : String)
  | unknownSource (edge : Nat) (id : String)
  | unknownTarget (edge : Nat) (id : String)
  | loop (edge : Nat) (id : String)
  | parallel (edge : Nat) (source target : String)
  | unconnected (ids : List String)
  deriving DecidableEq, Repr

namespace Finding

def severity : Finding → Severity
  | noNodes => .info
  | repeatedId _ => .error
  | unknownSource .. => .error
  | unknownTarget .. => .error
  | loop .. => .warning
  | parallel .. => .info
  | unconnected _ => .warning

def message : Finding → String
  | noNodes => "Graph has no nodes"
  | repeatedId id => s!"Duplicate node id: {id}"
  | unknownSource _ id => s!"Edge references non-existent source node: {id}"
  | unknownTarget _ id => s!"Edge references non-existent target node: {id}"
  | loop .. => "Self-referencing edge (node points to itself)"
  | parallel _ source target => s!"Parallel edge from {source} to {target}"
  | unconnected ids => "Orphan nodes (no connections): " ++ ", ".intercalate ids

def node? : Finding → Option String
  | repeatedId id => some id
  | loop _ id => some id
  | _ => none

def edge? : Finding → Option Nat
  | unknownSource i _ => some i
  | unknownTarget i _ => some i
  | loop i _ => some i
  | parallel i .. => some i
  | _ => none

/-- A finding as JSON; an empty node id is not told. -/
def toJson {α : Type} (f : Finding) : Json α :=
  .obj ([("type", .str f.severity.name), ("message", .str f.message)] ++
    (match f.node? with
      | some id => if id.isEmpty then [] else [("node_id", .str id)]
      | none => []) ++
    (match f.edge? with
      | some i => [("edge_index", .ofNat i)]
      | none => []))

end Finding

namespace Graph

/-- One finding for each node whose id an earlier node has. -/
def repeatedIds : List String → List Node → List Finding
  | _, [] => []
  | seen, n :: rest =>
    (if n.id ∈ seen then [.repeatedId n.id] else []) ++ repeatedIds (n.id :: seen) rest

/-- The findings on one edge, given the ids of nodes and the pairs joined by earlier edges. -/
def edgeFindings (ids : List String) (seen : List (String × String)) (i : Nat) (e : Edge) :
    List Finding :=
  (if e.source ∈ ids then [] else [.unknownSource i e.source]) ++
    (if e.target ∈ ids then [] else [.unknownTarget i e.target]) ++
    (if e.source = e.target then [.loop i e.source] else []) ++
    (if (e.source, e.target) ∈ seen then [.parallel i e.source e.target] else [])

/-- The findings on edges from position `i` on. -/
def edgesFindings (ids : List String) : List (String × String) → Nat → List Edge → List Finding
  | _, _, [] => []
  | seen, i, e :: rest =>
    edgeFindings ids seen i e ++ edgesFindings ids ((e.source, e.target) :: seen) (i + 1) rest

/-- The ids of nodes that no edge touches. -/
def unconnectedIds (g : Graph) : List String :=
  g.nodeIds.filter fun id => !g.edges.any fun e => e.source == id || e.target == id

/-- All findings on a graph: on nodes, then on edges, then on nodes without edges. -/
def findings (g : Graph) : List Finding :=
  if g.nodes.isEmpty then [.noNodes]
  else
    let unconnected := g.unconnectedIds
    repeatedIds [] g.nodes ++ edgesFindings g.nodeIds [] 0 g.edges ++
      (if unconnected.isEmpty || g.edges.isEmpty then [] else [.unconnected unconnected])

end Graph

/-- How many findings there are of each severity. -/
structure FindingSummary where
  total : Nat
  errors : Nat
  warnings : Nat
  info : Nat
  valid : Bool
  deriving DecidableEq, Repr

namespace FindingSummary

def ofList (fs : List Finding) : FindingSummary :=
  let errors := fs.countP (·.severity = .error)
  { total := fs.length
    errors
    warnings := fs.countP (·.severity = .warning)
    info := fs.countP (·.severity = .info)
    valid := errors = 0 }

def toJson {α : Type} (s : FindingSummary) : Json α :=
  .obj [("total", .ofNat s.total), ("errors", .ofNat s.errors), ("warnings", .ofNat s.warnings),
    ("info", .ofNat s.info), ("valid", .bool s.valid)]

end FindingSummary

/-- The members of a report on a graph. -/
def Graph.report {α : Type} (g : Graph) : Entries (Json α) :=
  [("graph", g.toJson), ("issues", .arr (g.findings.map Finding.toJson)),
    ("summary", (FindingSummary.ofList g.findings).toJson)]

end Whiteboard
