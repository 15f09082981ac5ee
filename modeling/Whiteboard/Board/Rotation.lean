import Whiteboard.Board.Content

/-!
# Rotating elements

A single element turns in place. Several elements turn as a rigid body around the middle of the box
of their upright frames.
-/

namespace Whiteboard

variable {α : Type} [Scalar α]

namespace Frame

/-- The frame with its middle turned around a pivot and itself turned by the same angle. -/
def turnAround (f : Frame α) (pivot : Point α) (angle : α) : Frame α :=
  let center := Point.rotate f.center pivot angle
  { f with
    x := center.x - f.width / 2
    y := center.y - f.height / 2
    rotation := Scalar.normalizeAngle (f.rotation + angle) }

end Frame

namespace Board

/-- Changes the frames of the elements with the given ids. -/
def mapFrames (ids : List String) (change : Frame α → Frame α) (b : Board α) : Board α :=
  b.withElements (b.elements.map fun e => if ids.contains e.id then e.mapFrame change else e)

/-- The end of every rotation. -/
def rotated (ids : List String) (b : Board α) : Outcome α Unit :=
  (b.refreshBindings ids).andThen fun _ b => (.ok (), b.changed)

/-- Turns elements as a rigid body. -/
def turnTogether (ids : List String) (angle : α) (b : Board α) : Outcome α Unit :=
  if Scalar.isInfinite angle then (.error .unboundedAngle, b)
  else
    let pivot := (Element.uprightBox (among ids b.elements)).center
    (b.mapFrames ids fun f => f.turnAround pivot angle).rotated ids

/-- Turns elements by an angle. -/
def rotate (ids : List String) (angle : α) (b : Board α) : Outcome α Unit :=
  match among ids b.elements with
  | [] => (.ok (), b)
  | [_] =>
    (b.mapFrames ids fun f =>
      { f with rotation := Scalar.normalizeAngle (f.rotation + angle) }).rotated ids
  | _ => b.turnTogether ids angle

/-- Angles below this one are no rotation. -/
def leastAngle : α := 0.001

/-- Turns elements so that the first of them comes to a rotation. -/
def setRotation (ids : List String) (target : α) (b : Board α) : Outcome α Unit :=
  match among ids b.elements with
  | [] => (.ok (), b)
  | [_] =>
    (b.mapFrames ids fun f => { f with rotation := Scalar.normalizeAngle target }).rotated ids
  | first :: _ =>
    let angle := target - first.rotation
    if Scalar.abs angle < leastAngle then (.ok (), b)
    else b.turnTogether ids angle

end Board

end Whiteboard
