import Whiteboard.Element.Codec
import Whiteboard.Geometry

/-!
# Anchors

The places on a frame that arrows are bound to, and which of them is nearest to a point. Anchors
are those of the upright frame; arrows have none.
-/

namespace Whiteboard

variable {α : Type} [Scalar α]

namespace Anchor

/-- Where an anchor lies on a box. -/
def on (a : Anchor) (b : Box α) : Point α :=
  let middle := b.center
  match a with
  | top => ⟨middle.x, b.y⟩
  | bottom => ⟨middle.x, b.bottom⟩
  | left => ⟨b.x, middle.y⟩
  | right => ⟨b.right, middle.y⟩
  | center => middle
  | topLeft => ⟨b.x, b.y⟩
  | topRight => ⟨b.right, b.y⟩
  | bottomLeft => ⟨b.x, b.bottom⟩
  | bottomRight => ⟨b.right, b.bottom⟩

/-- The anchors of round shapes. -/
def ofCircles : List Anchor := [top, bottom, left, right, center]

/-- The anchors of all other elements. -/
def ofBoxes : List Anchor := [topLeft, topRight, bottomLeft, bottomRight] ++ ofCircles

/-- The anchors of a kind of elements, in the order in which they are tried. -/
def ofKind : ElementKind → List Anchor
  | .shape .arrow => []
  | .shape .circle => ofCircles
  | _ => ofBoxes

end Anchor

/-- An anchor of an element of a board, with its place. -/
structure SnapPoint (α : Type) where
  place : Point α
  binding : Binding
  deriving BEq, Repr

namespace SnapPoint

def ofElement (e : Element α) : List (SnapPoint α) :=
  (Anchor.ofKind e.kind).map fun a => ⟨a.on e.frame.box, ⟨e.id, a⟩⟩

/-- The snap points of all elements but the one with the given id. -/
def ofElements (elements : List (Element α)) (except : Option String) : List (SnapPoint α) :=
  (elements.filter fun e => some e.id != except).flatMap ofElement

/-- How far snapping reaches if nothing else is said. -/
def defaultReach : α := 35

def distance (s : SnapPoint α) (p : Point α) : α := Scalar.hypot (s.place.x - p.x) (s.place.y - p.y)

/-- A snap point that is within reach and nearer than the best so far takes its place. -/
def nearer (p : Point α) (reach : α) (best : Option (SnapPoint α × α)) (s : SnapPoint α) :
    Option (SnapPoint α × α) :=
  let d := s.distance p
  let closer : Bool :=
    match best with
    | none => Scalar.isFinite d
    | some (_, least) => d < least
  if closer && d ≤ reach then some (s, d) else best

/-- The first of the snap points nearest to a point, if one is within reach. -/
def nearest? (points : List (SnapPoint α)) (p : Point α) (reach : α) : Option (SnapPoint α) :=
  (points.foldl (nearer p reach) none).map (·.1)

/-- Where an end of an arrow at a point snaps to. -/
def snap? (elements : List (Element α)) (arrow : Option String) (p : Point α) (reach : α) :
    Option (SnapPoint α) :=
  nearest? (ofElements elements arrow) p reach

def toJson (s : SnapPoint α) : Json α :=
  .obj [("x", .num s.place.x), ("y", .num s.place.y), ("element_id", .str s.binding.element),
    ("position", .str (Named.name s.binding.anchor))]

/-- The report of snapping: where a point comes to lie, and what it is bound to if it snaps. -/
def report (p : Point α) : Option (SnapPoint α) → Json α
  | none => .obj [("snapped", .bool false), ("x", .num p.x), ("y", .num p.y)]
  | some s =>
    .obj [("snapped", .bool true), ("x", .num s.place.x), ("y", .num s.place.y),
      ("snap_point", s.toJson), ("binding", s.binding.toJson)]

/-- Adds a snap point unless there is one at its place. -/
def addPlace (points : List (SnapPoint α)) (s : SnapPoint α) : List (SnapPoint α) :=
  if points.any fun p => p.place.x == s.place.x && p.place.y == s.place.y then points
  else points ++ [s]

/-- The snap points within reach of the ends of an arrow. -/
def active (elements : List (Element α)) (arrow : Element α) (reach : α) : List (SnapPoint α) :=
  match arrow.shape? with
  | some { start := some start, finish := some finish, .. } =>
    let points := ofElements elements (some arrow.id)
    let ends := [start, finish].map fun p => (⟨arrow.x + p.x, arrow.y + p.y⟩ : Point α)
    (ends.filterMap fun p => nearest? points p reach).foldl addPlace []
  | _ => []

end SnapPoint

end Whiteboard
