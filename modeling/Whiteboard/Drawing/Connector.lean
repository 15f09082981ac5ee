import Whiteboard.Geometry

/-!
# Connectors

Where an arrow between two boxes leaves them, to which sides it is bound, and how arrows between the
same boxes are bent apart.
-/

namespace Whiteboard.Connector

variable {α : Type} [Scalar α]

/-- What stands in for a zero offset: the distance from 1 to the next greater double. -/
def epsilon : α := 1 / 4503599627370496

/-- How often an offset goes into half a side. -/
def reach (side offset : α) : α := Scalar.abs (side / 2 / Scalar.orElse offset epsilon)

/-- The point where the way from the center of a box to a target crosses its border. -/
def exit (center : Point α) (width height : α) (target : Point α) : Point α :=
  let dx := target.x - center.x
  let dy := target.y - center.y
  if Scalar.isZero dx && Scalar.isZero dy then center
  else
    let t := Scalar.lesser (reach width dx) (reach height dy)
    ⟨center.x + dx * t, center.y + dy * t⟩

/-- The sides that face each other when the second box lies at the offset `(dx, dy)`. -/
def sides (dx dy : α) : Anchor × Anchor :=
  if Scalar.abs dx > Scalar.abs dy then
    if dx > 0 then (.right, .left) else (.left, .right)
  else if dy > 0 then (.bottom, .top)
  else (.top, .bottom)

/-- The curve of the `index`-th of `total` arrows between the same nodes, from -1 to 1. They fan out
around the straight line; a lone arrow is bent slightly. -/
def curve (bend : Bool) (strength : α) (index total : Int) : α :=
  let base : α := if bend then 2 else 0
  let middle : α := Scalar.ofInt (total - 1) / 2
  let offset : α := if 1 < total then (Scalar.ofInt index - middle) * 1.5 else 0.2
  Scalar.greater (-1) (Scalar.lesser 1 (offset * base * Scalar.orElse strength 1))

end Whiteboard.Connector
