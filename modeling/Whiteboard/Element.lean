import Whiteboard.Scalar
import Whiteboard.Named

/-!
# Elements

What lies on a board: shapes, among them arrows, images, texts, and groups of elements. Every
element has a frame; the elements of a group have frames relative to that of the group, and the
ends of an arrow are relative to the corner of its own frame.
-/

namespace Whiteboard

/-- The places on a frame that an arrow can be bound to. -/
inductive Anchor where
  | top
  | bottom
  | left
  | right
  | center
  | topLeft
  | topRight
  | bottomLeft
  | bottomRight
  deriving DecidableEq, Repr

instance : Named Anchor where
  title := "AnchorPosition"
  values := [.top, .bottom, .left, .right, .center, .topLeft, .topRight, .bottomLeft, .bottomRight]
  name
    | .top => "top"
    | .bottom => "bottom"
    | .left => "left"
    | .right => "right"
    | .center => "center"
    | .topLeft => "top-left"
    | .topRight => "top-right"
    | .bottomLeft => "bottom-left"
    | .bottomRight => "bottom-right"

/-- The kinds of shapes. -/
inductive ShapeKind where
  | rectangle
  | roundedRectangle
  | circle
  | triangle
  | arrow
  deriving DecidableEq, Repr

/-- The kinds of elements. -/
inductive ElementKind where
  | shape (kind : ShapeKind)
  | image
  | text
  | group
  deriving DecidableEq, Repr

def ShapeKind.name : ShapeKind → String
  | rectangle => "rectangle"
  | roundedRectangle => "rounded-rectangle"
  | circle => "circle"
  | triangle => "triangle"
  | arrow => "arrow"

instance : Named ElementKind where
  title := "ElementType"
  values := [.shape .rectangle, .shape .roundedRectangle, .shape .circle, .shape .triangle,
    .shape .arrow, .image, .text, .group]
  name
    | .shape kind => kind.name
    | .image => "image"
    | .text => "text"
    | .group => "group"

inductive ImageFilter where
  | grayscale
  | sepia
  | blur
  | none
  deriving DecidableEq, Repr

instance : Named ImageFilter where
  title := "ImageFilter"
  values := [.grayscale, .sepia, .blur, .none]
  name
    | .grayscale => "grayscale"
    | .sepia => "sepia"
    | .blur => "blur"
    | .none => "none"

/-- What every element has. The rotation is in degrees, around the middle. -/
structure Frame (α : Type) where
  id : String
  x : α
  y : α
  width : α
  height : α
  rotation : α
  zIndex : Int
  deriving BEq, Repr

structure Point (α : Type) where
  x : α
  y : α
  deriving BEq, Repr

/-- The end of an arrow at an anchor of another element, which need not exist. -/
structure Binding where
  element : String
  anchor : Anchor
  deriving DecidableEq, Repr

structure TextStyle (α : Type) where
  family : String
  size : α
  color : String
  background : Option String
  bold : Bool
  italic : Bool
  underline : Bool
  strikethrough : Bool
  deriving BEq, Repr

/-- A style for a range of characters, as far as it differs from that of the text. -/
structure RangeStyle (α : Type) where
  start : Int
  stop : Int
  bold : Option Bool
  italic : Option Bool
  underline : Option Bool
  strikethrough : Option Bool
  color : Option String
  background : Option String
  size : Option α
  family : Option String
  deriving BEq, Repr

/-- What a shape has besides its frame; the fields from `start` on are for arrows. -/
structure Shape (α : Type) where
  fill : String
  borderWidth : α
  border : String
  cornerRadius : Option α
  content : Option String
  textStyle : Option (TextStyle α)
  ranges : List (RangeStyle α)
  start : Option (Point α)
  finish : Option (Point α)
  headSize : Option α
  tailWidth : Option α
  curve : Option α
  startBinding : Option Binding
  finishBinding : Option Binding
  deriving BEq, Repr

structure Image where
  source : String
  filter : ImageFilter
  deriving DecidableEq, Repr

structure TextBlock (α : Type) where
  content : String
  style : TextStyle α
  ranges : List (RangeStyle α)
  deriving BEq, Repr

inductive Element (α : Type) where
  | shape (frame : Frame α) (kind : ShapeKind) (shape : Shape α)
  | image (frame : Frame α) (image : Image)
  | text (frame : Frame α) (text : TextBlock α)
  | group (frame : Frame α) (children : List (Element α))
  deriving Repr

instance : BEq Binding := instBEqOfDecidableEq

/-! ## Other numbers

Each structure with its numbers replaced, the rest staying as it is. -/

section Map

variable {α β : Type} (f : α → β)

def Frame.map (r : Frame α) : Frame β :=
  ⟨r.id, f r.x, f r.y, f r.width, f r.height, f r.rotation, r.zIndex⟩

def Point.map (p : Point α) : Point β := ⟨f p.x, f p.y⟩

def TextStyle.map (s : TextStyle α) : TextStyle β := { s with size := f s.size }

def RangeStyle.map (r : RangeStyle α) : RangeStyle β := { r with size := r.size.map f }

def Shape.map (s : Shape α) : Shape β :=
  { s with
    borderWidth := f s.borderWidth
    cornerRadius := s.cornerRadius.map f
    textStyle := s.textStyle.map (TextStyle.map f)
    ranges := s.ranges.map (RangeStyle.map f)
    start := s.start.map (Point.map f)
    finish := s.finish.map (Point.map f)
    headSize := s.headSize.map f
    tailWidth := s.tailWidth.map f
    curve := s.curve.map f }

def TextBlock.map (t : TextBlock α) : TextBlock β :=
  { t with style := t.style.map f, ranges := t.ranges.map (RangeStyle.map f) }

mutual

def Element.map : Element α → Element β
  | .shape r k s => .shape (r.map f) k (s.map f)
  | .image r i => .image (r.map f) i
  | .text r t => .text (r.map f) (t.map f)
  | .group r cs => .group (r.map f) (Element.mapAll cs)

def Element.mapAll : List (Element α) → List (Element β)
  | [] => []
  | e :: rest => Element.map e :: Element.mapAll rest

end

end Map

section

variable {α : Type}

theorem Frame.map_id (r : Frame α) : r.map (fun x => x) = r := rfl

theorem Point.map_id (p : Point α) : p.map (fun x => x) = p := rfl

theorem TextStyle.map_id (s : TextStyle α) : s.map (fun x => x) = s := rfl

theorem RangeStyle.map_id (r : RangeStyle α) : r.map (fun x => x) = r := by
  simp [RangeStyle.map]

theorem Shape.map_id (s : Shape α) : s.map (fun x => x) = s := by
  simp [Shape.map, funext TextStyle.map_id, funext RangeStyle.map_id, funext Point.map_id]

theorem TextBlock.map_id (t : TextBlock α) : t.map (fun x => x) = t := by
  simp [TextBlock.map, TextStyle.map_id, funext RangeStyle.map_id]

mutual

theorem Element.map_id (e : Element α) : e.map (fun x => x) = e := by
  cases e with
  | shape r k s => simp [Element.map, Frame.map_id, Shape.map_id]
  | image r i => simp [Element.map, Frame.map_id]
  | text r t => simp [Element.map, Frame.map_id, TextBlock.map_id]
  | group r cs => simp [Element.map, Frame.map_id, Element.mapAll_id cs]

theorem Element.mapAll_id (es : List (Element α)) : Element.mapAll (fun x => x) es = es := by
  cases es with
  | nil => rfl
  | cons e rest => simp [Element.mapAll, Element.map_id e, Element.mapAll_id rest]

end

end

namespace Element

variable {α : Type}

mutual

/-- How many groups lie around the innermost element, itself counted if it is a group. -/
def nesting : Element α → Nat
  | group _ cs => nestingOf cs + 1
  | _ => 0

def nestingOf : List (Element α) → Nat
  | [] => 0
  | e :: rest => max (nesting e) (nestingOf rest)

end

mutual

/-- Equality, field by field and child by child. -/
def same [BEq α] : Element α → Element α → Bool
  | shape f k s, shape f' k' s' => f == f' && k == k' && s == s'
  | image f i, image f' i' => f == f' && i == i'
  | text f t, text f' t' => f == f' && t == t'
  | group f cs, group f' cs' => f == f' && sameList cs cs'
  | _, _ => false

def sameList [BEq α] : List (Element α) → List (Element α) → Bool
  | [], [] => true
  | e :: es, e' :: es' => same e e' && sameList es es'
  | _, _ => false

end

instance [BEq α] : BEq (Element α) := ⟨same⟩

def frame : Element α → Frame α
  | shape f _ _ => f
  | image f _ => f
  | text f _ => f
  | group f _ => f

/-- The element with another frame. -/
def withFrame (e : Element α) (f : Frame α) : Element α :=
  match e with
  | shape _ k s => shape f k s
  | image _ i => image f i
  | text _ t => text f t
  | group _ cs => group f cs

/-- Changes the frame. -/
def mapFrame (e : Element α) (change : Frame α → Frame α) : Element α :=
  e.withFrame (change e.frame)

def kind : Element α → ElementKind
  | shape _ k _ => .shape k
  | image .. => .image
  | text .. => .text
  | group .. => .group

def id (e : Element α) : String := e.frame.id

def x (e : Element α) : α := e.frame.x

def y (e : Element α) : α := e.frame.y

def width (e : Element α) : α := e.frame.width

def height (e : Element α) : α := e.frame.height

def rotation (e : Element α) : α := e.frame.rotation

def zIndex (e : Element α) : Int := e.frame.zIndex

/-- Moves an element to a place. -/
def moveTo (e : Element α) (x y : α) : Element α := e.mapFrame fun f => { f with x, y }

def withZIndex (e : Element α) (z : Int) : Element α := e.mapFrame fun f => { f with zIndex := z }

def withRotation (e : Element α) (r : α) : Element α := e.mapFrame fun f => { f with rotation := r }

def shape? : Element α → Option (Shape α)
  | shape _ _ s => some s
  | _ => none

/-- Numbers elements from the lowest on. -/
def renumbered (elements : List (Element α)) : List (Element α) :=
  elements.zipIdx.map fun (e, i) => e.withZIndex i

/-- The shape of an arrow. -/
def arrow? : Element α → Option (Shape α)
  | shape _ .arrow s => some s
  | _ => none

def isArrow (e : Element α) : Bool := e.arrow?.isSome

def children : Element α → List (Element α)
  | group _ cs => cs
  | _ => []

def isGroup : Element α → Bool
  | group .. => true
  | _ => false

@[simp]
theorem frame_withFrame (e : Element α) (f : Frame α) : (e.withFrame f).frame = f := by
  cases e <;> rfl

@[simp]
theorem frame_mapFrame (e : Element α) (change : Frame α → Frame α) :
    (e.mapFrame change).frame = change e.frame :=
  frame_withFrame e _

end Element

/-- The map from a board to the screen: `screen = board · scale + (x, y)`. -/
structure Viewport (α : Type) where
  x : α
  y : α
  scale : α
  deriving BEq, Repr

namespace Viewport

variable {α : Type} [Scalar α]

def initial : Viewport α := ⟨0, 0, 1⟩

def toScreen (v : Viewport α) (p : Point α) : Point α :=
  ⟨p.x * v.scale + v.x, p.y * v.scale + v.y⟩

def toBoard (v : Viewport α) (p : Point α) : Point α :=
  ⟨(p.x - v.x) / v.scale, (p.y - v.y) / v.scale⟩

end Viewport

/-- What is on a board, what is selected and what of it is in view. -/
structure Document (α : Type) where
  elements : List (Element α)
  selected : List String
  viewport : Viewport α
  deriving BEq, Repr

def Viewport.map {α β : Type} (f : α → β) (v : Viewport α) : Viewport β :=
  ⟨f v.x, f v.y, f v.scale⟩

namespace Document

variable {α : Type}

/-- The document with other numbers. -/
def map {β : Type} (f : α → β) (d : Document α) : Document β :=
  ⟨Element.mapAll f d.elements, d.selected, d.viewport.map f⟩

theorem map_id (d : Document α) : d.map (fun x => x) = d := by
  simp [map, Element.mapAll_id, Viewport.map]

/-- The document as it is once it was kept. -/
def settled [Scalar α] (d : Document α) : Document α := d.map Scalar.settle

/-- Where values equal themselves anyway, keeping a document leaves it as it is. -/
theorem settled_eq_self [Scalar α] (h : ∀ x : α, Scalar.settle x = x) (d : Document α) :
    d.settled = d := by
  rw [settled, show (Scalar.settle : α → α) = fun x => x from funext h, map_id]

end Document

end Whiteboard
