import Whiteboard.Arrow
import Whiteboard.Gesture.Guide

/-!
# Dragging

What one frame of a drag changes: all dragged elements move by one offset, that of the pointer
corrected so that the first of them snaps to its surroundings.
-/

namespace Whiteboard

/-- What one frame of a gesture asks for, and the guides to draw. -/
structure GestureFrame (α : Type) where
  updates : Batch α
  guides : List (Guide α)

variable {α : Type} [Scalar α]

namespace GestureFrame

def empty : GestureFrame α := ⟨[], []⟩

/-- The elements with what a gesture asks for frames. -/
def place (elements : List (Element α)) (frames : Entries (Frame α → Frame α)) : List (Element α) :=
  elements.map fun e => (Entries.get? e.id frames).elim e e.mapFrame

/-- The last of the elements with an id. -/
def lastOf? (elements : List (Element α)) (id : String) : Option (Element α) :=
  elements.reverse.find? fun e => e.id == id

/-- The changes that put an element at a point. -/
def positionChanges (p : Point α) : Changes α := [("x", .num p.x), ("y", .num p.y)]

/-- One frame of dragging elements from where they started, the pointer having moved by `(dx, dy)`.
Arrows bound to dragged elements follow, unless they are dragged themselves. -/
def drag (elements : List (Element α)) (starts : Entries (Point α)) (dx dy : α)
    (viewport : Option (Viewport α)) (reach : α) : GestureFrame α :=
  match starts.findSome? fun (id, p) => (lastOf? elements id).map (·, p) with
  | none => .empty
  | some (first, start) =>
    let limit := Guide.onBoard viewport reach
    let moved := { first.frame with x := start.x + dx, y := start.y + dy }
    let others := (elements.filter fun e => !Entries.has e.id starts).map Element.frame
    let snapped := moved.snapped limit others
    let offsetX := dx + snapped.x - moved.x
    let offsetY := dy + snapped.y - moved.y
    let targets : Entries (Point α) :=
      (starts.filter fun (id, _) => elements.any fun e => e.id == id).map fun (id, p) =>
        (id, ⟨p.x + offsetX, p.y + offsetY⟩)
    let after := place elements (targets.mapValues fun p f => { f with x := p.x, y := p.y })
    let arrows := (Element.rebindings targets.keys after).filter fun (id, _) =>
      !Entries.has id starts
    ⟨Batch.merge (targets.mapValues positionChanges) arrows, Guide.ofMoving limit moved others⟩

end GestureFrame

end Whiteboard
