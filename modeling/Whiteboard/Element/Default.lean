import Whiteboard.Element.Change

/-!
# New elements

Elements as an editor first puts them on a board. Groups are not made this way: they come from
elements that are there.
-/

namespace Whiteboard

variable {α : Type} [Scalar α]

namespace Shape

/-- An empty box for text in white. -/
def blank (cornerRadius : Option α) : Shape α :=
  { Shape.initial with
    cornerRadius
    content := some ""
    textStyle := some { TextStyle.initial with color := "#ffffff" } }

/-- A straight arrow without ends. -/
def blankArrow : Shape α :=
  { Shape.initial with
    fill := "transparent"
    borderWidth := 4
    border := "#2563eb"
    headSize := some 18
    tailWidth := some 4
    curve := some 0 }

end Shape

/-- What is asked of a new element; only images take a source and a size. -/
structure Draft (α : Type) where
  x : α
  y : α
  zIndex : Int := 0
  source : Option String := none
  width : Option α := none
  height : Option α := none

namespace Draft

/-- Whether a value counts as given: null, zero, false and what is empty do not. -/
def counts : Json α → Bool
  | .null | .str "" | .bool false | .int 0 | .arr [] | .obj [] => false
  | .num x => !Scalar.isZero x
  | _ => true

/-- A field that only images have, where it counts as given. -/
def ofImage {β : Type} (kind : ElementKind) (key : String) (read : Json α → Checked β)
    (ms : Entries (Json α)) : Checked (Option β) :=
  match Entries.get? key ms with
  | some v => if kind = .image ∧ counts v then some <$> (read v).under key else .ok none
  | none => .ok none

/-- Reads what is asked of a new element of a kind. -/
def ofMembers (kind : ElementKind) (ms : Entries (Json α)) : Checked (Draft α) :=
  (fun x y width height zIndex source => ⟨x, y, zIndex, source, width, height⟩)
    <$> Schema.required "x" Schema.number ms <*> Schema.required "y" Schema.number ms
    <*> ofImage kind "width" (Schema.atLeast 0) ms <*> ofImage kind "height" (Schema.atLeast 0) ms
    <*> Schema.withDefault "z_index" 0 Schema.integer ms <*> ofImage kind "src" Schema.text ms

/-- The frame of a new upright element. -/
def frame (d : Draft α) (id : String) (width height : α) : Frame α :=
  ⟨id, d.x, d.y, width, height, 0, d.zIndex⟩

/-- The side of an image, which is not negative. -/
def side (key : String) (given : Option α) : Checked α :=
  (Schema.notBelow 0 (given.getD 200)).under key

/-- A side that was given; zero counts as not given. -/
def given? (side : Option α) : Option α := side.filter fun s => !Scalar.isZero s

/-- The source of an image; an empty one counts as not given. -/
def imageSource (d : Draft α) : String :=
  match d.source with
  | none | some "" => "https://via.placeholder.com/200"
  | some s => s

end Draft

namespace Element

/-- A new shape with an id. -/
def newShape (id : String) (kind : ShapeKind) (d : Draft α) : Element α :=
  match kind with
  | .arrow =>
    shape (d.frame id 180 60) kind
      { Shape.blankArrow with start := some ⟨20, 30⟩, finish := some ⟨160, 30⟩ }
  | .roundedRectangle => shape (d.frame id 150 150) kind (.blank (some 20))
  | _ => shape (d.frame id 150 150) kind (.blank none)

def newText : TextBlock α where
  content := "Double-click to edit"
  style := { (TextStyle.initial : TextStyle α) with size := 24 }
  ranges := []

/-- A new element of a kind. -/
def create (ids : IdSupply) (kind : ElementKind) (d : Draft α) :
    Except EditError (Element α) × IdSupply :=
  match kind with
  | .shape kind => (.ok (newShape ids.elementId kind d), ids.next)
  | .text => (.ok (text (d.frame ids.elementId 300 80) newText), ids.next)
  | .image =>
    let make (width height : α) : Element α :=
      image (d.frame ids.elementId width height) ⟨d.imageSource, .none⟩
    let made := make <$> Draft.side "width" d.width <*> Draft.side "height" d.height
    (made.toEdit, ids.next)
  | .group => (.error (.notCreatable .group), ids)

end Element

end Whiteboard
