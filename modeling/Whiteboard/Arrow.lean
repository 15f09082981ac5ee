import Whiteboard.Anchor
import Whiteboard.Element.Change
import Whiteboard.Fault

/-!
# Bound arrows

An arrow that is bound to an element follows it: when the element moves, the bound end is put on
its anchor again, and the frame of the arrow is fitted around both ends. A binding to an element
that is gone is ignored.
-/

namespace Whiteboard

variable {α : Type} [Scalar α]

namespace Binding

/-- Where a binding leads, if its element is there. -/
def place? (b : Binding) (elements : List (Element α)) : Option (Point α) :=
  (elements.find? fun e => e.id == b.element).map fun e => b.anchor.on e.frame.box

/-- What is said about a binding whose element is gone. -/
def fault (b : Binding) : Fault α := ⟨"Binding target not found", [("element_id", .str b.element)]⟩

/-- Where a binding leads. -/
def resolve (b : Binding) (elements : List (Element α)) : Except (Fault α) (Point α) :=
  match b.place? elements with
  | some p => .ok p
  | none => .error b.fault

/-- Where an end leads that may be unbound. -/
def placeOf? (b : Option Binding) (elements : List (Element α)) : Option (Point α) :=
  b.bind fun b => b.place? elements

end Binding

/-- The box of an arrow and its ends, relative to the corner of the box. -/
structure ArrowGeometry (α : Type) where
  box : Box α
  start : Point α
  finish : Point α

namespace ArrowGeometry

/-- The least side of the box of an arrow. -/
def leastSide : α := 10

/-- The geometry of an arrow between two points, the sides of its box not below `least`. -/
def between (start finish : Point α) (least : α) : ArrowGeometry α :=
  let left := Scalar.lesser start.x finish.x
  let top := Scalar.lesser start.y finish.y
  { box :=
      { x := left
        y := top
        width := Scalar.greater (Scalar.abs (finish.x - start.x)) least
        height := Scalar.greater (Scalar.abs (finish.y - start.y)) least }
    start := ⟨start.x - left, start.y - top⟩
    finish := ⟨finish.x - left, finish.y - top⟩ }

def toChanges (g : ArrowGeometry α) : Changes α :=
  [("x", .num g.box.x), ("y", .num g.box.y), ("width", .num g.box.width),
    ("height", .num g.box.height), ("arrow_start", g.start.toJson), ("arrow_end", g.finish.toJson)]

end ArrowGeometry

namespace Batch

/-- The changes of both batches; for an id in both those of the second one. -/
def merge (base changes : Batch α) : Batch α := Entries.merge base changes

end Batch

namespace Element

/-- Whether an end is bound to one of some elements. -/
def boundTo (ids : List String) (b : Option Binding) : Bool := b.any fun b => ids.contains b.element

/-- The place of a relative end on the board. -/
def endPlace (e : Element α) (p : Point α) : Point α := ⟨e.x + p.x, e.y + p.y⟩

/-- The new geometry of an arrow when some elements moved: if it is bound to one of them, or if it
moved itself and is bound at all. Ends that lead nowhere stay. -/
def rebound? (moved : List String) (elements : List (Element α)) (withMoved : Bool)
    (e : Element α) : Option (ArrowGeometry α) :=
  match e.arrow? with
  | some { start := some start, finish := some finish, startBinding, finishBinding, .. } =>
    let bound := startBinding.isSome || finishBinding.isSome
    if boundTo moved startBinding || boundTo moved finishBinding
        || (withMoved && moved.contains e.id && bound) then
      let start := (Binding.placeOf? startBinding elements).getD (e.endPlace start)
      let finish := (Binding.placeOf? finishBinding elements).getD (e.endPlace finish)
      some (.between start finish ArrowGeometry.leastSide)
    else none
  | _ => none

/-- The changes to arrows when some elements moved. -/
def rebindings (moved : List String) (elements : List (Element α)) (withMoved : Bool := true) :
    Batch α :=
  elements.foldl (fun batch e =>
    match e.rebound? moved elements withMoved with
    | some g => Entries.set e.id g.toChanges batch
    | none => batch) []

end Element

end Whiteboard
