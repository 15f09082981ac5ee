import Whiteboard.Geometry
import Whiteboard.Json
import Whiteboard.Scalar.Sorting

/-!
# Guides

Lines that show where the edges and middles of an element meet those of others, and the snapping of
a moved element to them. Distances on the screen are divided by the scale of the viewport.
-/

namespace Whiteboard

/-- The direction of a guide. -/
inductive Axis where
  | vertical
  | horizontal
  deriving DecidableEq, Repr

instance : Named Axis where
  title := "Axis"
  values := [.vertical, .horizontal]
  name
    | .vertical => "vertical"
    | .horizontal => "horizontal"

/-- A line at a position, drawn from `start` to `finish`. -/
structure Guide (α : Type) where
  axis : Axis
  position : α
  start : α
  finish : α
  deriving Repr

variable {α : Type} [Scalar α]

namespace Frame

/-- The two edges of a frame that run along an axis. -/
def edges (f : Frame α) : Axis → List α
  | .vertical => [f.x, f.right]
  | .horizontal => [f.y, f.bottom]

/-- The edges and the middle of a frame. -/
def alignments (f : Frame α) (axis : Axis) : List α :=
  match axis with
  | .vertical => f.edges .vertical ++ [f.center.x]
  | .horizontal => f.edges .horizontal ++ [f.center.y]

end Frame

namespace Guide

def toJson (g : Guide α) : Json α :=
  .obj [("orientation", .str (Named.name g.axis)), ("position", .num g.position),
    ("start", .num g.start), ("end", .num g.finish)]

/-- How near an element has to come, in units of the screen. -/
def defaultReach : α := 10

/-- A distance on the screen as one on the board. -/
def onBoard (viewport : Option (Viewport α)) (distance : α) : α :=
  distance / (viewport.elim 1 Viewport.scale)

/-- The guide that runs past two frames. -/
def past (a b : Frame α) (axis : Axis) (position : α) : Guide α :=
  match axis with
  | .vertical => ⟨axis, position, Scalar.lesser a.y b.y, Scalar.greater a.bottom b.bottom⟩
  | .horizontal => ⟨axis, position, Scalar.lesser a.x b.x, Scalar.greater a.right b.right⟩

def samePlace (g h : Guide α) : Bool := g.axis == h.axis && g.position == h.position

/-- The guides without those that stand where an earlier one does. -/
def distinct (guides : List (Guide α)) : List (Guide α) :=
  guides.foldl (fun seen g => if seen.any g.samePlace then seen else seen ++ [g]) []

/-- Whether two positions are near each other, but not the same. -/
def isNear (limit a b : α) : Bool :=
  let d := Scalar.abs (a - b)
  (0 : α) < d && d < limit

/-- The guides for a moved frame along an axis of another one: where an edge or the middle is near
that of the other, but not on it. -/
def alongAxis (limit : α) (moving other : Frame α) (axis : Axis) : List (Guide α) :=
  ((moving.alignments axis).zip (other.alignments axis)).filterMap fun (mine, theirs) =>
    if isNear limit mine theirs then some (past moving other axis theirs) else none

/-- The guides for a moved frame. -/
def ofMoving (limit : α) (moving : Frame α) (others : List (Frame α)) : List (Guide α) :=
  distinct (others.flatMap fun other =>
    alongAxis limit moving other .vertical ++ alongAxis limit moving other .horizontal)

/-- The guides for a resized frame along an axis of another one: where an edge meets an edge. -/
def edgesAlongAxis (limit : α) (resized other : Frame α) (axis : Axis) : List (Guide α) :=
  (resized.edges axis).flatMap fun mine =>
    (other.edges axis).filterMap fun theirs =>
      if Scalar.abs (mine - theirs) < limit then some (past resized other axis theirs) else none

/-- The guides for a resized frame. -/
def ofResized (limit : α) (resized : Frame α) (others : List (Frame α)) : List (Guide α) :=
  distinct (others.flatMap fun other =>
    edgesAlongAxis limit resized other .vertical ++ edgesAlongAxis limit resized other .horizontal)

end Guide

namespace Frame

/-- The new position along one side when a moved frame meets another one: the middle before the far
edge before the near edge. Positions are those of the near edges. -/
def snapSide (limit mine size theirs otherSize position : α) : α :=
  if Scalar.abs (mine + size / 2 - (theirs + otherSize / 2)) < limit then
    theirs + otherSize / 2 - size / 2
  else if Scalar.abs (mine + size - (theirs + otherSize)) < limit then theirs + otherSize - size
  else if Scalar.abs (mine - theirs) < limit then theirs
  else position

/-- The position of a moved frame that snaps to others; the last of them that it meets counts, for
each side on its own. -/
def snapped (limit : α) (moving : Frame α) (others : List (Frame α)) : Point α :=
  others.foldl (fun p other =>
    ⟨snapSide limit moving.x moving.width other.x other.width p.x,
      snapSide limit moving.y moving.height other.y other.height p.y⟩) ⟨moving.x, moving.y⟩

end Frame

/-- The middles of elements that stand at equal distances, by axis. -/
structure Spacings (α : Type) where
  vertical : List α
  horizontal : List α

namespace Spacings

/-- The values in order, without repetitions. -/
def distinctValues (xs : List α) : List α :=
  xs.foldl (fun seen x => if seen.any (x == ·) then seen else seen ++ [x]) []

/-- The values of three in a row that are as far apart as each other, to within 1. -/
def equalRuns : List α → List α
  | a :: b :: c :: rest =>
    let here := if Scalar.abs (b - a - (c - b)) < 1 then [a, b, c] else []
    here ++ equalRuns (b :: c :: rest)
  | _ => []

/-- The values that stand at equal distances. -/
def equal (xs : List α) : List α :=
  distinctValues (equalRuns (Sorting.sort xs))

def ofFrames (frames : List (Frame α)) : Spacings α :=
  ⟨equal (frames.map fun f => f.center.x), equal (frames.map fun f => f.center.y)⟩

end Spacings

end Whiteboard
