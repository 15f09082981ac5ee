import Whiteboard.Graph.Layers

/-!
# Fewer crossings

Reordering of the nodes inside layers so that edges cross less: each sweep sorts every layer by the
mean position of its nodes' neighbors in the layer before it, and then every layer by the one
behind it. Nodes without a neighbor there come last, and ties are broken by id. Layers keep their
nodes.
-/

namespace Whiteboard.Graph

/-- The last position of an id in a list, counted from `start`. -/
def lastIndex? (id : String) (start : Nat) : List String → Option Nat
  | [] => none
  | x :: rest => (lastIndex? id (start + 1) rest).or (if x = id then some start else none)

/-- The sum and the number of the positions of a node's neighbors in a layer. -/
structure Barycenter where
  total : Nat
  count : Nat
  deriving DecidableEq, Repr

/-- The mean of positions. -/
def Barycenter.of (positions : List Nat) : Barycenter :=
  ⟨positions.foldl (· + ·) 0, positions.length⟩

/-- The order of means; no mean is greater than any. -/
def Barycenter.lt (a b : Barycenter) : Bool :=
  if a.count = 0 then false
  else if b.count = 0 then true
  else a.total * b.count < b.total * a.count

/-- The mean position of a node's neighbors in a layer. -/
def barycenter (neighbors : String → List String) (layer : List String) (id : String) :
    Barycenter :=
  .of ((neighbors id).filterMap fun n => lastIndex? n 0 layer)

/-- The order of nodes by mean position and then by id. -/
def precedes (mean : String → Barycenter) (a b : String) : Bool :=
  if (mean a).lt (mean b) then true
  else if (mean b).lt (mean a) then false
  else a ≤ b

/-- A layer in the order that its neighbor layer suggests. -/
def reorder (neighbors : String → List String) (beside layer : List String) : List String :=
  layer.mergeSort (precedes (barycenter neighbors beside))

/-- Reorders layers one after the other, each by the one before it. -/
def sweepDownFrom (g : Graph) (before : List String) : List (List String) → List (List String)
  | [] => []
  | layer :: rest =>
    let layer := reorder g.predecessors before layer
    layer :: sweepDownFrom g layer rest

/-- Reorders all layers but the first, each by the one before it. -/
def sweepDown (g : Graph) : List (List String) → List (List String)
  | [] => []
  | first :: rest => first :: sweepDownFrom g first rest

/-- Reorders all layers but the last, from the end, each by the one behind it. -/
def sweepUp (g : Graph) : List (List String) → List (List String)
  | [] => []
  | layer :: rest =>
    match sweepUp g rest with
    | [] => [layer]
    | behind :: more => reorder g.successors behind layer :: behind :: more

/-- Sweeps down and up, several times. -/
def reduceCrossings (g : Graph) (layers : List (List String)) : Nat → List (List String)
  | 0 => layers
  | n + 1 => reduceCrossings g (sweepUp g (sweepDown g layers)) n

/-- The sweeps that a layout makes. -/
def layoutSweeps : Nat := 3

/-- The layers of a graph in the order in which they are laid out. -/
def orderedLayers (g : Graph) : List (List String) := reduceCrossings g g.layers layoutSweeps

end Whiteboard.Graph
