import Whiteboard.Graph
import Whiteboard.Schema

/-!
# Graphs as JSON

The members of nodes, edges and graphs. An edge may name its ends `from` and `to`.
-/

namespace Whiteboard

open Schema

variable {α : Type}

namespace Node

def toJson (n : Node) : Json α :=
  .obj [("id", .str n.id), ("label", .str n.label), ("shape", .str (Named.name n.shape)),
    ("level", .ofOption .int n.level), ("background_color", .ofOption .str n.fill),
    ("border_color", .ofOption .str n.border), ("is_decision", .bool n.isDecision)]

def ofMembers [Scalar α] (ms : Entries (Json α)) : Checked Node :=
  Node.mk <$> required "id" text ms <*> required "label" text ms
    <*> withDefault "shape" .rectangle (named .unknownName) ms
    <*> withDefault "level" none (optional integer) ms
    <*> withDefault "background_color" none (optional text) ms
    <*> withDefault "border_color" none (optional text) ms
    <*> withDefault "is_decision" false truth ms

def ofJson [Scalar α] (v : Json α) : Checked Node := (members .recordExpected v).andThen ofMembers

end Node

namespace Edge

def toJson (e : Edge) : Json α :=
  .obj [("source", .str e.source), ("target", .str e.target), ("label", .str e.label),
    ("type", .str (Named.name e.kind))]

/-- The member `other` under the name `key`, unless that is there too. -/
def renamed (other key : String) (ms : Entries (Json α)) : Entries (Json α) :=
  match Entries.get? other ms, Entries.get? key ms with
  | some v, none => (Entries.erase other ms).set key v
  | _, _ => ms

def ofMembers [Scalar α] (ms : Entries (Json α)) : Checked Edge :=
  let ms := renamed "to" "target" (renamed "from" "source" ms)
  Edge.mk <$> required "source" text ms <*> required "target" text ms
    <*> withDefault "label" "" text ms <*> withDefault "type" .arrow (named .unknownName) ms

def ofJson [Scalar α] (v : Json α) : Checked Edge := (members .recordExpected v).andThen ofMembers

end Edge

namespace Graph

def toJson (g : Graph) : Json α :=
  .obj [("direction", .str (Named.name g.direction)), ("nodes", .arr (g.nodes.map Node.toJson)),
    ("edges", .arr (g.edges.map Edge.toJson))]

def ofMembers [Scalar α] (ms : Entries (Json α)) : Checked Graph :=
  Graph.mk <$> withDefault "direction" .tb (named .unknownName) ms
    <*> withDefault "nodes" [] (listOf Node.ofJson) ms
    <*> withDefault "edges" [] (listOf Edge.ofJson) ms

def ofJson [Scalar α] (v : Json α) : Checked Graph := (members .recordExpected v).andThen ofMembers

end Graph

end Whiteboard
