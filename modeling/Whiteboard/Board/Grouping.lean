import Whiteboard.Board.Rotation

/-!
# Grouping

A group takes over elements, whose places become relative to it. When it is dissolved, the size and
rotation it was given meanwhile pass on to its children.
-/

namespace Whiteboard

variable {α : Type} [Scalar α]

namespace Element

/-- The highest of the positions in the stack. -/
def topIndex : List (Element α) → Int
  | [] => 0
  | e :: rest => rest.foldl (fun z e => max z e.zIndex) e.zIndex

/-- The group of some elements; there is none if their frames span no box. -/
def groupOf (id : String) (members : List (Element α)) : Checked (Element α) :=
  let box := uprightBox members
  let frame : Frame α := ⟨id, box.x, box.y, box.width, box.height, 0, topIndex members⟩
  frame.checked.map fun f =>
    .group f (members.map fun e => e.moveTo (e.x - box.x) (e.y - box.y))

/-- An end of an arrow whose frame is scaled. -/
def scaledEnd (sx sy : α) (p : Point α) : Point α := ⟨p.x * sx, p.y * sy⟩

/-- The element with another frame; the ends of an arrow are scaled. -/
def rescaled (sx sy : α) (f : Frame α) : Element α → Element α
  | shape _ .arrow s =>
    shape f .arrow
      { s with start := s.start.map (scaledEnd sx sy), finish := s.finish.map (scaledEnd sx sy) }
  | e => e.withFrame f

/-- The frame on the board of a child of a group, the group's content being scaled. -/
def releasedFrame (g : Frame α) (sx sy : α) (f : Frame α) : Frame α :=
  let width := f.width * sx
  let height := f.height * sy
  let turned := Point.rotate ⟨f.x * sx + width / 2, f.y * sy + height / 2⟩
    ⟨g.width / 2, g.height / 2⟩ g.rotation
  { f with
    x := turned.x + g.x - width / 2
    y := turned.y + g.y - height / 2
    width
    height
    rotation := Scalar.normalizeAngle (f.rotation + g.rotation)
    zIndex := g.zIndex }

/-- The children of a group as elements of the board. -/
def released (g : Element α) : List (Element α) :=
  let natural := uprightBox g.children
  let sx := g.width / Scalar.greater natural.width 1
  let sy := g.height / Scalar.greater natural.height 1
  g.children.map fun e => e.rescaled sx sy (releasedFrame g.frame sx sy e.frame)

end Element

namespace Board

/-- Groups two or more elements; the group comes last and is selected. -/
def group (ids : List String) (b : Board α) : Outcome α (Option (Element α)) :=
  let members := among ids b.elements
  if members.length < 2 then (.ok none, b)
  else
    let made := Element.groupOf b.ids.elementId members
    Outcome.andThen (made.toEdit, { b with ids := b.ids.next }) fun g b =>
      let b := (b.withElements (without ids b.elements ++ [g])).withSelected [g.id]
      (b.refreshBindings (ids ++ [g.id])).andThen fun _ b => (.ok (some g), b.changed)

/-- Dissolves groups; their children come last and are selected. -/
def ungroup (ids : List String) (b : Board α) : Outcome α (List (Element α)) :=
  let groups := (among ids b.elements).filter Element.isGroup
  if groups.isEmpty then (.ok [], b)
  else
    let groupIds := groups.map Element.id
    let released := groups.flatMap Element.released
    let releasedIds := released.map Element.id
    let b := (b.withElements (without groupIds b.elements ++ released)).withSelected releasedIds
    (b.refreshBindings (groupIds ++ releasedIds)).andThen fun _ b => (.ok released, b.changed)

end Board

end Whiteboard
