import Whiteboard.Board.Content
import Whiteboard.Element.Default

/-!
# Drawing by hand

New elements come to lie on top and are selected. The ends of an arrow are moved one at a time.
-/

namespace Whiteboard

variable {α : Type} [Scalar α]

/-- The two ends of an arrow. -/
inductive ArrowEnd where
  | start
  | finish
  deriving DecidableEq, Repr

instance : Named ArrowEnd where
  title := "ArrowEnd"
  values := [.start, .finish]
  name
    | .start => "start"
    | .finish => "end"

namespace ArrowEnd

/-- The end of a name. -/
def ofName (name : String) : Except EditError ArrowEnd :=
  match Named.ofName? name with
  | some side => .ok side
  | none => .error (.unknownEnd name)

/-- The field that holds the binding of an end. -/
def bindingField : ArrowEnd → String
  | start => "start_binding"
  | finish => "end_binding"

end ArrowEnd

namespace Board

/-- Puts a new element on top and selects it. -/
def place (e : Element α) (b : Board α) : Board α := b.insert [e]

/-- Makes a new element of a kind. -/
def create (kind : ElementKind) (draft : Draft α) (b : Board α) : Outcome α (Element α) :=
  match Element.create b.ids kind { draft with zIndex := b.elements.length } with
  | (.error e, ids) => (.error e, { b with ids })
  | (.ok e, ids) => (.ok e, { b with ids }.place e)

/-- The least side of the box of a new arrow. -/
def leastArrowSide : α := 50

/-- Makes a new arrow between two points. -/
def createArrow (start finish : Point α) (startBinding finishBinding : Option Binding)
    (b : Board α) : Outcome α (Element α) :=
  let g := ArrowGeometry.between start finish leastArrowSide
  let frame : Frame α :=
    ⟨b.ids.elementId, g.box.x, g.box.y, g.box.width, g.box.height, 0, b.elements.length⟩
  Outcome.andThen (frame.checked.toEdit, { b with ids := b.ids.next }) fun frame b =>
    let arrow : Element α := .shape frame .arrow
      { Shape.blankArrow with
        start := some g.start
        finish := some g.finish
        startBinding
        finishBinding }
    (.ok arrow, b.place arrow)

/-- The changes that move one end of an arrow and bind it anew, if the arrow has both ends. -/
def endChanges? (e : Element α) (side : ArrowEnd) (p : Point α) (binding : Option Binding) :
    Option (Changes α) :=
  match e.arrow? with
  | some { start := some start, finish := some finish, .. } =>
    let g :=
      match side with
      | .start => ArrowGeometry.between p (e.endPlace finish) ArrowGeometry.leastSide
      | .finish => ArrowGeometry.between (e.endPlace start) p ArrowGeometry.leastSide
    some (g.toChanges ++ [(side.bindingField, .ofOption Binding.toJson binding)])
  | _ => none

/-- Moves one end of an arrow to a point and sets its binding; no result if there is no such
arrow. -/
def moveEnd (id : String) (side : ArrowEnd) (p : Point α) (binding : Option Binding)
    (b : Board α) : Outcome α (Option (Element α)) :=
  match (b.element? id).bind fun e => endChanges? e side p binding with
  | none => (.ok none, b)
  | some changes => b.update id changes false

end Board

end Whiteboard
