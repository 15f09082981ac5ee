import Whiteboard.Element

/-!
# Geometry

Boxes around elements, rotation, and the tests whether an element is hit by a point or covered by a
marquee. The vertical axis points down, so that positive angles turn clockwise.
-/

namespace Whiteboard

/-- An upright rectangle, by its corner at the top left and its size. -/
structure Box (α : Type) where
  x : α
  y : α
  width : α
  height : α
  deriving BEq, Repr

namespace Box

variable {α : Type} [Scalar α]

def empty : Box α := ⟨0, 0, 0, 0⟩

def center (b : Box α) : Point α := ⟨b.x + b.width / 2, b.y + b.height / 2⟩

def right (b : Box α) : α := b.x + b.width

def bottom (b : Box α) : α := b.y + b.height

end Box

variable {α : Type} [Scalar α]

/-- The point turned around a center by an angle. -/
def Point.rotate (p center : Point α) (degrees : α) : Point α :=
  let cos := Scalar.cosDeg degrees
  let sin := Scalar.sinDeg degrees
  let dx := p.x - center.x
  let dy := p.y - center.y
  ⟨center.x + dx * cos - dy * sin, center.y + dx * sin + dy * cos⟩

namespace Frame

def center (f : Frame α) : Point α := ⟨f.x + f.width / 2, f.y + f.height / 2⟩

def right (f : Frame α) : α := f.x + f.width

def bottom (f : Frame α) : α := f.y + f.height

def box (f : Frame α) : Box α := ⟨f.x, f.y, f.width, f.height⟩

/-- The frame with the position and size of a box. -/
def withBox (f : Frame α) (b : Box α) : Frame α :=
  { f with x := b.x, y := b.y, width := b.width, height := b.height }

/-- Points that span the frame as it is drawn: two corners of an upright frame, all four corners of
a rotated one. -/
def corners (f : Frame α) : List (Point α) :=
  if Scalar.isZero f.rotation then [⟨f.x, f.y⟩, ⟨f.right, f.bottom⟩]
  else
    [⟨f.x, f.y⟩, ⟨f.right, f.y⟩, ⟨f.right, f.bottom⟩, ⟨f.x, f.bottom⟩].map fun p =>
      Point.rotate p f.center f.rotation

/-- Whether a point lies on the frame as it is drawn. -/
def isHit (f : Frame α) (p : Point α) : Bool :=
  if Scalar.isZero f.rotation then
    f.x ≤ p.x && p.x ≤ f.right && (f.y ≤ p.y && p.y ≤ f.bottom)
  else
    let upright := Point.rotate p f.center (-f.rotation)
    Scalar.abs (upright.x - f.center.x) ≤ f.width / 2 &&
      Scalar.abs (upright.y - f.center.y) ≤ f.height / 2

end Frame

/-- The least box that holds all points; the empty box if there are none. -/
def Box.around : List (Point α) → Box α
  | [] => .empty
  | p :: rest =>
    let left := Scalar.least p.x (rest.map Point.x)
    let top := Scalar.least p.y (rest.map Point.y)
    ⟨left, top, Scalar.greatest p.x (rest.map Point.x) - left,
      Scalar.greatest p.y (rest.map Point.y) - top⟩

namespace Element

def center (e : Element α) : Point α := e.frame.center

/-- The box around elements as they are drawn. -/
def boundingBox (elements : List (Element α)) : Box α :=
  .around (elements.flatMap fun e => e.frame.corners)

/-- The box around the frames of elements, whatever their rotation. -/
def uprightBox (elements : List (Element α)) : Box α :=
  match elements.map Element.frame with
  | [] => .empty
  | f :: rest =>
    let left := Scalar.least f.x (rest.map Frame.x)
    let top := Scalar.least f.y (rest.map Frame.y)
    ⟨left, top, Scalar.greatest f.right (rest.map Frame.right) - left,
      Scalar.greatest f.bottom (rest.map Frame.bottom) - top⟩

def isHit (e : Element α) (p : Point α) : Bool := e.frame.isHit p

/-- Whether an element as it is drawn lies in the marquee between two points. -/
def isInside (e : Element α) (a b : Point α) : Bool :=
  let box := boundingBox [e]
  Scalar.lesser a.x b.x ≤ box.x && box.right ≤ Scalar.greater a.x b.x &&
    (Scalar.lesser a.y b.y ≤ box.y && box.bottom ≤ Scalar.greater a.y b.y)

end Element

end Whiteboard
