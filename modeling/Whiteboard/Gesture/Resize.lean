import Whiteboard.Gesture.Drag

/-!
# Resizing

The box of an element whose edge or corner is dragged, and what one frame of such a gesture changes.
The edge or corner opposite to the handle stays where it is.
-/

namespace Whiteboard

/-- The edges and corners that can be dragged. -/
inductive Handle where
  | topLeft
  | topRight
  | bottomLeft
  | bottomRight
  | top
  | bottom
  | left
  | right
  deriving DecidableEq, Repr

namespace Handle

instance : Named Handle where
  title := "ResizeHandle"
  values := [.topLeft, .topRight, .bottomLeft, .bottomRight, .top, .bottom, .left, .right]
  name
    | .topLeft => "tl"
    | .topRight => "tr"
    | .bottomLeft => "bl"
    | .bottomRight => "br"
    | .top => "t"
    | .bottom => "b"
    | .left => "l"
    | .right => "r"

/-- Whether the handle lies on the left edge. -/
def onLeft : Handle → Bool
  | topLeft | bottomLeft | left => true
  | _ => false

/-- Whether the handle lies on the top edge. -/
def onTop : Handle → Bool
  | topLeft | topRight | top => true
  | _ => false

/-- Whether the handle changes the width. -/
def movesWidth : Handle → Bool
  | top | bottom => false
  | _ => true

/-- Whether the handle changes the height. -/
def movesHeight : Handle → Bool
  | left | right => false
  | _ => true

def isCorner (h : Handle) : Bool := h.movesWidth && h.movesHeight

end Handle

variable {α : Type} [Scalar α]

namespace Box

/-- The least side of a resized element. -/
def leastSide : α := 20

/-- A side that a pointer drags by `d`, no less than `least`. -/
def draggedSide (side d least : α) (backward : Bool) : α :=
  Scalar.greater least (if backward then side - d else side + d)

/-- The height that goes with a new width in the ratio of the sides of a box; `none` if the box has
no width to speak of. -/
def ratioHeight? (b : Box α) (width : α) : Option α :=
  let ratio := b.width / b.height
  if Scalar.isZero ratio then none else some (width / ratio)

/-- The height of a box whose handle is dragged down by `dy`, its width becoming `width`. At corners
that keep the ratio of the sides, the height follows the width. -/
def resizedHeight? (b : Box α) (h : Handle) (dy width : α) (keepRatio : Bool) (least : α) :
    Option α :=
  if !h.movesHeight then some b.height
  else if h.isCorner && keepRatio && (0 : α) < b.height then
    (b.ratioHeight? width).map (Scalar.greater least)
  else some (draggedSide b.height dy least h.onTop)

/-- The box when its handle is dragged by `(dx, dy)`. -/
def resize? (b : Box α) (h : Handle) (dx dy : α) (keepRatio : Bool) (least : α) :
    Option (Box α) :=
  let width := if h.movesWidth then draggedSide b.width dx least h.onLeft else b.width
  (b.resizedHeight? h dy width keepRatio least).map fun height =>
    { x := if h.onLeft then b.right - width else b.x
      y := if h.onTop then b.bottom - height else b.y
      width
      height }

def toChanges (b : Box α) : Changes α :=
  [("x", .num b.x), ("y", .num b.y), ("width", .num b.width), ("height", .num b.height)]

end Box

namespace GestureFrame

/-- The boxes of all elements whose handle is dragged. -/
def resizedBoxes (h : Handle) (dx dy : α) (keepRatio : Bool) :
    Entries (Box α) → Except EditError (Entries (Box α))
  | [] => .ok []
  | (id, b) :: rest =>
    match b.resize? h dx dy keepRatio Box.leastSide with
    | none => .error .noRatio
    | some resized => (resizedBoxes h dx dy keepRatio rest).map ((id, resized) :: ·)

/-- The guides for the first of the resized elements. -/
def resizeGuides (after : List (Element α)) (starts : Entries (Box α)) (limit : α) :
    List (Guide α) :=
  match starts with
  | [] => []
  | (first, _) :: _ =>
    match after.find? fun e => e.id == first with
    | none => []
    | some e =>
      let others := (after.filter fun e => !Entries.has e.id starts).map Element.frame
      Guide.ofResized limit e.frame others

/-- One frame of resizing elements from the boxes they had. Arrows bound to resized elements
follow, and so do resized arrows that are bound. -/
def resize (elements : List (Element α)) (starts : Entries (Box α)) (h : Handle) (dx dy : α)
    (keepRatio : Bool) (viewport : Option (Viewport α)) (reach : α) :
    Except EditError (GestureFrame α) := do
  let boxes ← resizedBoxes h dx dy keepRatio starts
  let after := place elements (boxes.mapValues fun b f => f.withBox b)
  let arrows := Element.rebindings boxes.keys after
  return ⟨Batch.merge (boxes.mapValues Box.toChanges) arrows,
    resizeGuides after starts (Guide.onBoard viewport reach)⟩

end GestureFrame

end Whiteboard
