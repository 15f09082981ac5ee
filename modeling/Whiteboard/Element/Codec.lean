import Whiteboard.Element
import Whiteboard.IdSupply
import Whiteboard.Schema

/-!
# Elements as JSON

Writing elements and documents as JSON values, and reading them back with checks. Sizes are not
negative, a curve lies between -1 and 1, a scale is positive, and rotations are brought into
`[0, 360)`. Elements without an id are given one before they are read, in the order of the text
and groups before their children.
-/

namespace Whiteboard

open Schema

variable {α : Type}

namespace Point

def toJson (p : Point α) : Json α := .obj [("x", .num p.x), ("y", .num p.y)]

def ofJson [Scalar α] (v : Json α) : Checked (Point α) :=
  (members .recordExpected v).andThen fun ms =>
    Point.mk <$> required "x" number ms <*> required "y" number ms

end Point

namespace Binding

def toJson (b : Binding) : Json α :=
  .obj [("element_id", .str b.element), ("position", .str (Named.name b.anchor))]

def ofMembers [Scalar α] (ms : Entries (Json α)) : Checked Binding :=
  Binding.mk <$> required "element_id" Schema.text ms
    <*> withDefault "position" .center (named .unknownName) ms

def ofJson [Scalar α] (v : Json α) : Checked Binding :=
  (members .recordExpected v).andThen ofMembers

end Binding

namespace TextStyle

def initial [Scalar α] : TextStyle α where
  family := "Arial"
  size := 16
  color := "#000000"
  background := none
  bold := false
  italic := false
  underline := false
  strikethrough := false

def toMembers (s : TextStyle α) : Entries (Json α) :=
  [("font_family", .str s.family), ("font_size", .num s.size), ("color", .str s.color),
    ("background_color", .ofOption .str s.background), ("bold", .bool s.bold),
    ("italic", .bool s.italic), ("underline", .bool s.underline),
    ("strikethrough", .bool s.strikethrough)]

def toJson (s : TextStyle α) : Json α := .obj s.toMembers

def ofJson [Scalar α] (v : Json α) : Checked (TextStyle α) :=
  (members .recordExpected v).andThen fun ms =>
    TextStyle.mk <$> withDefault "font_family" "Arial" Schema.text ms
      <*> withDefault "font_size" 16 number ms
      <*> withDefault "color" "#000000" Schema.text ms
      <*> withDefault "background_color" none (optional Schema.text) ms
      <*> withDefault "bold" false truth ms
      <*> withDefault "italic" false truth ms
      <*> withDefault "underline" false truth ms
      <*> withDefault "strikethrough" false truth ms

/-- A style that was read, with only the members that were there to read it from. -/
def partOf [Scalar α] (v : Json α) : Checked (Json α) :=
  (ofJson v).map fun s => .obj (s.toMembers.filter fun (k, _) => (v.get? k).isSome)

end TextStyle

namespace RangeStyle

def toJson (r : RangeStyle α) : Json α :=
  .obj [("start", .int r.start), ("end", .int r.stop), ("bold", .ofOption .bool r.bold),
    ("italic", .ofOption .bool r.italic), ("underline", .ofOption .bool r.underline),
    ("strikethrough", .ofOption .bool r.strikethrough), ("color", .ofOption .str r.color),
    ("background_color", .ofOption .str r.background), ("font_size", .ofOption .num r.size),
    ("font_family", .ofOption .str r.family)]

def ofJson [Scalar α] (v : Json α) : Checked (RangeStyle α) :=
  (members .recordExpected v).andThen fun ms =>
    RangeStyle.mk <$> required "start" integer ms <*> required "end" integer ms
      <*> withDefault "bold" none (optional truth) ms
      <*> withDefault "italic" none (optional truth) ms
      <*> withDefault "underline" none (optional truth) ms
      <*> withDefault "strikethrough" none (optional truth) ms
      <*> withDefault "color" none (optional Schema.text) ms
      <*> withDefault "background_color" none (optional Schema.text) ms
      <*> withDefault "font_size" none (optional number) ms
      <*> withDefault "font_family" none (optional Schema.text) ms

end RangeStyle

namespace Frame

def toMembers (f : Frame α) : Entries (Json α) :=
  [("id", .str f.id), ("x", .num f.x), ("y", .num f.y), ("width", .num f.width),
    ("height", .num f.height), ("rotation", .num f.rotation), ("z_index", .int f.zIndex)]

def ofMembers [Scalar α] (ms : Entries (Json α)) : Checked (Frame α) :=
  Frame.mk <$> required "id" Schema.text ms <*> withDefault "x" 0 number ms
    <*> withDefault "y" 0 number ms <*> withDefault "width" 0 (atLeast 0) ms
    <*> withDefault "height" 0 (atLeast 0) ms
    <*> withDefault "rotation" 0 (fun v => Scalar.normalizeAngle <$> number v) ms
    <*> withDefault "z_index" 0 integer ms

/-- A frame that was not read, after the checks of one that was. -/
def checked [Scalar α] (f : Frame α) : Checked (Frame α) :=
  (fun width height => { f with width, height }) <$> (notBelow 0 f.width).under "width"
    <*> (notBelow 0 f.height).under "height"

end Frame

namespace Shape

def toMembers (s : Shape α) : Entries (Json α) :=
  [("background_color", .str s.fill), ("border_width", .num s.borderWidth),
    ("border_color", .str s.border), ("corner_radius", .ofOption .num s.cornerRadius),
    ("content", .ofOption .str s.content),
    ("text_style", .ofOption TextStyle.toJson s.textStyle),
    ("text_range_styles", .arr (s.ranges.map RangeStyle.toJson)),
    ("arrow_start", .ofOption Point.toJson s.start),
    ("arrow_end", .ofOption Point.toJson s.finish),
    ("arrow_head_size", .ofOption .num s.headSize),
    ("arrow_tail_width", .ofOption .num s.tailWidth), ("arrow_curve", .ofOption .num s.curve),
    ("start_binding", .ofOption Binding.toJson s.startBinding),
    ("end_binding", .ofOption Binding.toJson s.finishBinding)]

def ofMembers [Scalar α] (ms : Entries (Json α)) : Checked (Shape α) :=
  Shape.mk <$> withDefault "background_color" "#3b82f6" Schema.text ms
    <*> withDefault "border_width" 2 number ms
    <*> withDefault "border_color" "#1e40af" Schema.text ms
    <*> withDefault "corner_radius" none (optional number) ms
    <*> withDefault "content" none (optional Schema.text) ms
    <*> withDefault "text_style" none (optional TextStyle.ofJson) ms
    <*> withDefault "text_range_styles" [] (listOf RangeStyle.ofJson) ms
    <*> withDefault "arrow_start" none (optional Point.ofJson) ms
    <*> withDefault "arrow_end" none (optional Point.ofJson) ms
    <*> withDefault "arrow_head_size" none (optional number) ms
    <*> withDefault "arrow_tail_width" none (optional number) ms
    <*> withDefault "arrow_curve" none (optional (between (-1) 1)) ms
    <*> withDefault "start_binding" none (optional Binding.ofJson) ms
    <*> withDefault "end_binding" none (optional Binding.ofJson) ms

/-- A shape with nothing given. -/
def initial [Scalar α] : Shape α where
  fill := "#3b82f6"
  borderWidth := 2
  border := "#1e40af"
  cornerRadius := none
  content := none
  textStyle := none
  ranges := []
  start := none
  finish := none
  headSize := none
  tailWidth := none
  curve := none
  startBinding := none
  finishBinding := none

end Shape

namespace Image

def toMembers (i : Image) : Entries (Json α) :=
  [("src", .str i.source), ("filter", .str (Named.name i.filter))]

def ofMembers [Scalar α] (ms : Entries (Json α)) : Checked Image :=
  Image.mk <$> required "src" Schema.text ms
    <*> withDefault "filter" .none (named .unknownName) ms

end Image

namespace TextBlock

def toMembers (t : TextBlock α) : Entries (Json α) :=
  [("content", .str t.content), ("style", t.style.toJson),
    ("range_styles", .arr (t.ranges.map RangeStyle.toJson))]

def ofMembers [Scalar α] (ms : Entries (Json α)) : Checked (TextBlock α) :=
  TextBlock.mk <$> withDefault "content" "" Schema.text ms
    <*> withDefault "style" .initial TextStyle.ofJson ms
    <*> withDefault "range_styles" [] (listOf RangeStyle.ofJson) ms

end TextBlock

namespace Element

/-- The member that tells the kind of an element. -/
def kindMember (k : ElementKind) : Entries (Json α) := [("type", .str (Named.name k))]

mutual

def toJson : Element α → Json α
  | shape f k s => .obj (f.toMembers ++ kindMember (.shape k) ++ s.toMembers)
  | image f i => .obj (f.toMembers ++ kindMember .image ++ i.toMembers)
  | text f t => .obj (f.toMembers ++ kindMember .text ++ t.toMembers)
  | group f cs => .obj (f.toMembers ++ kindMember .group ++ [("children", .arr (toJsons cs))])

def toJsons : List (Element α) → List (Json α)
  | [] => []
  | e :: rest => toJson e :: toJsons rest

end

/-- The kind that the members of an element tell. -/
def kindOf (ms : Entries (Json α)) : Except Cause ElementKind :=
  match Entries.get? "type" ms with
  | none => .error .tagMissing
  | some (.str name) =>
    match Named.ofName? name with
    | some k => .ok k
    | none => .error .tagUnknown
  | some _ => .error .tagUnknown

/-- How deep groups may be nested where they are read. -/
def maxNesting : Nat := 254

mutual

/-- Reads an element in which groups may be nested up to `room` deep; issues inside it stand under
the name of its kind. -/
def ofJson [Scalar α] (room : Nat) : Json α → Checked (Element α)
  | .obj ms =>
    match kindOf ms with
    | .error cause => .fail cause
    | .ok k =>
      let read : Checked (Element α) :=
        match k with
        | .shape kind => (fun f s => shape f kind s) <$> Frame.ofMembers ms <*> Shape.ofMembers ms
        | .image => image <$> Frame.ofMembers ms <*> Image.ofMembers ms
        | .text => text <$> Frame.ofMembers ms <*> TextBlock.ofMembers ms
        | .group =>
          if room = 0 then .fail .tooDeep
          else group <$> Frame.ofMembers ms <*> childrenOf (room - 1) ms
      read.under (Named.name k)
  | _ => .fail .requestExpected

/-- Reads the children of a group. -/
def childrenOf [Scalar α] (room : Nat) :
    List (String × Json α) → Checked (List (Element α))
  | [] => .ok []
  | (k, v) :: rest =>
    if k = "children" then
      match v with
      | .arr items => (ofJsons room 0 items).under k
      | _ => (Checked.fail .listExpected).under k
    else childrenOf room rest

/-- Reads elements, each under its position from `start` on. -/
def ofJsons [Scalar α] (room start : Nat) : List (Json α) → Checked (List (Element α))
  | [] => .ok []
  | v :: rest =>
    List.cons <$> (ofJson room v).under (toString start) <*> ofJsons room (start + 1) rest

end

/-- The id that the members of an element lack. -/
def missingId (s : IdSupply) (ms : Entries (Json α)) : Entries (Json α) × IdSupply :=
  if Entries.has "id" ms then ([], s) else ([("id", .str s.elementId)], s.next)

mutual

/-- Gives ids to an element and its children where they lack one. Groups that are nested too deep
are left alone. -/
def nameMissing (room : Nat) (s : IdSupply) : Json α → Json α × IdSupply
  | .obj ms =>
    match kindOf ms with
    | .error _ => (.obj ms, s)
    | .ok k =>
      if k = .group ∧ room = 0 then (.obj ms, s)
      else
        let (own, s) := missingId s ms
        if k = .group then
          let (ms, s) := nameChildren (room - 1) s ms
          (.obj (ms ++ own), s)
        else (.obj (ms ++ own), s)
  | v => (v, s)

def nameChildren (room : Nat) (s : IdSupply) :
    List (String × Json α) → List (String × Json α) × IdSupply
  | [] => ([], s)
  | (k, v) :: rest =>
    if k = "children" then
      match v with
      | .arr items =>
        let (items, s) := nameAll room s items
        ((k, .arr items) :: rest, s)
      | _ => ((k, v) :: rest, s)
    else
      let (rest, s) := nameChildren room s rest
      ((k, v) :: rest, s)

def nameAll (room : Nat) (s : IdSupply) : List (Json α) → List (Json α) × IdSupply
  | [] => ([], s)
  | v :: rest =>
    let (v, s) := nameMissing room s v
    let (rest, s) := nameAll room s rest
    (v :: rest, s)

end

/-- Reads an element that may lack ids. -/
def read [Scalar α] (s : IdSupply) (v : Json α) : Checked (Element α) × IdSupply :=
  let (v, s) := nameMissing maxNesting s v
  (ofJson maxNesting v, s)

/-- Reads a list of elements that may lack ids. -/
def readList [Scalar α] (s : IdSupply) : Json α → Checked (List (Element α)) × IdSupply
  | .arr items =>
    let (items, s) := nameAll maxNesting s items
    (ofJsons maxNesting 0 items, s)
  | _ => (.fail .listExpected, s)

end Element

namespace Viewport

def toMembers (v : Viewport α) : Entries (Json α) :=
  [("x", .num v.x), ("y", .num v.y), ("scale", .num v.scale)]

def toJson (v : Viewport α) : Json α := .obj v.toMembers

def ofMembers [Scalar α] (ms : Entries (Json α)) : Checked (Viewport α) :=
  Viewport.mk <$> withDefault "x" 0 number ms <*> withDefault "y" 0 number ms
    <*> withDefault "scale" 1 (above 0) ms

def ofJson [Scalar α] (v : Json α) : Checked (Viewport α) :=
  (members .recordExpected v).andThen ofMembers

end Viewport

namespace Document

def toMembers (d : Document α) : Entries (Json α) :=
  [("elements", .arr (Element.toJsons d.elements)), ("selected_ids", .ofStrings d.selected),
    ("viewport", d.viewport.toJson)]

def toJson (d : Document α) : Json α := .obj d.toMembers

/-- Reads the elements among the members of a document. -/
def elementsOf [Scalar α] (ms : Entries (Json α)) : Checked (List (Element α)) :=
  match Entries.get? "elements" ms with
  | none => .ok []
  | some (.arr items) => (Element.ofJsons Element.maxNesting 0 items).under "elements"
  | some _ => (Checked.fail .listExpected).under "elements"

def ofJson [Scalar α] (v : Json α) : Checked (Document α) :=
  (members .recordExpected v).andThen fun ms =>
    Document.mk <$> elementsOf ms <*> withDefault "selected_ids" [] (listOf Schema.text) ms
      <*> withDefault "viewport" .initial Viewport.ofJson ms

/-- Gives ids to the elements of a document where they lack one. -/
def nameMissing (s : IdSupply) : Json α → Json α × IdSupply
  | .obj ms =>
    match Entries.get? "elements" ms with
    | some (.arr items) =>
      let (items, s) := Element.nameAll Element.maxNesting s items
      (.obj (Entries.set "elements" (.arr items) ms), s)
    | _ => (.obj ms, s)
  | v => (v, s)

/-- Reads a document whose elements may lack ids. -/
def read [Scalar α] (s : IdSupply) (v : Json α) : Checked (Document α) × IdSupply :=
  let (v, s) := nameMissing s v
  (ofJson v, s)

end Document

end Whiteboard
