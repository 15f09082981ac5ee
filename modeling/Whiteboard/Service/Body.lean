import Whiteboard.Board.Creation
import Whiteboard.Diagram
import Whiteboard.Drawing

/-!
# Bodies of requests

The records that come with requests, and how they are read.
-/

namespace Whiteboard

open Schema

/-- How elements are moved in the stack. -/
inductive Restacking where
  | front
  | back
  | forward
  | backward
  deriving DecidableEq, Repr

instance : Named Restacking where
  title := "Restacking"
  values := [.front, .back, .forward, .backward]
  name
    | .front => "front"
    | .back => "back"
    | .forward => "forward"
    | .backward => "backward"

/-- How a selection is changed. -/
inductive Selecting where
  | replace
  | toggle
  | clear
  deriving DecidableEq, Repr

instance : Named Selecting where
  title := "Selecting"
  values := [.replace, .toggle, .clear]
  name
    | .replace => "replace"
    | .toggle => "toggle"
    | .clear => "clear"

namespace Body

/-- A diagram source. -/
structure Source where
  text : String
  format : Option Diagram.Format

/-- A diagram source to be drawn. -/
structure Import (α : Type) where
  source : Source
  origin : Point α
  bend : Bool
  palette : Palette
  strength : α

/-- An element to be added as it is, or else the kind of a new one. -/
structure Create (α : Type) where
  element : Option (Entries (Json α))
  kind : Option String
  draft : Draft α

/-- An arrow between two points. -/
structure Arrow (α : Type) where
  start : Point α
  finish : Point α
  startBinding : Option Binding
  finishBinding : Option Binding

/-- A new place of an end of an arrow. -/
structure MoveEnd (α : Type) where
  side : ArrowEnd
  place : Point α
  binding : Option Binding

/-- Elements and an angle. -/
structure Turn (α : Type) where
  ids : List String
  angle : α

structure Restack where
  ids : List String
  how : Restacking

structure Select where
  ids : List String
  how : Selecting

/-- A point that is to snap to an anchor. -/
structure Snap (α : Type) where
  place : Point α
  arrow : Option String
  reach : Option α

variable {α β : Type} [Scalar α]

/-! ## Reading -/

/-- A record that a request has to come with. -/
def record (read : Entries (Json α) → Checked β) (v : Json α) : Checked β :=
  (members .requestExpected v).andThen read

/-- A field that may be left out or null. -/
def maybe (key : String) (read : Json α → Checked β) (ms : Entries (Json α)) :
    Checked (Option β) :=
  withDefault key none (optional read) ms

/-- The ids that a request names. -/
def readIds : Entries (Json α) → Checked (List String) := required "ids" (listOf text)

/-- A point whose coordinates have the given keys. -/
def readPoint (x y : String) (ms : Entries (Json α)) : Checked (Point α) :=
  Point.mk <$> required x number ms <*> required y number ms

def readBinding (key : String) : Entries (Json α) → Checked (Option Binding) :=
  maybe key (record Binding.ofMembers)

def readSource (ms : Entries (Json α)) : Checked Source :=
  Source.mk <$> required "text" text ms <*> maybe "format" (named .unknownName) ms

def readImport (ms : Entries (Json α)) : Checked (Import α) :=
  (fun source x y => Import.mk source ⟨x, y⟩) <$> readSource ms
    <*> withDefault "start_x" 100 number ms <*> withDefault "start_y" 100 number ms
    <*> withDefault "enable_bend" true truth ms
    <*> withDefault "style_preset" .colorful (named .unknownWord) ms
    <*> withDefault "curve_strength" 0.7 number ms

def readCreate (ms : Entries (Json α)) : Checked (Create α) :=
  (fun element kind x y source width height =>
      Create.mk element kind ⟨x, y, 0, source, Draft.given? width, Draft.given? height⟩)
    <$> maybe "element" (Schema.members .mapExpected) ms <*> maybe "type" text ms
    <*> withDefault "x" 0 number ms <*> withDefault "y" 0 number ms <*> maybe "src" text ms
    <*> maybe "width" number ms <*> maybe "height" number ms

def readArrow (ms : Entries (Json α)) : Checked (Arrow α) :=
  Arrow.mk <$> readPoint "start_x" "start_y" ms <*> readPoint "end_x" "end_y" ms
    <*> readBinding "start_binding" ms <*> readBinding "end_binding" ms

def readMoveEnd (ms : Entries (Json α)) : Checked (MoveEnd α) :=
  MoveEnd.mk <$> required "point" (named .unknownWord) ms <*> readPoint "x" "y" ms
    <*> readBinding "binding" ms

/-- Changes for several elements. -/
def readBatch (ms : Entries (Json α)) : Checked (Batch α) :=
  required "updates" (mapOf (Schema.members .mapExpected)) ms

/-- Elements and an angle of the given name. -/
def readTurn (angle : String) (ms : Entries (Json α)) : Checked (Turn α) :=
  Turn.mk <$> readIds ms <*> required angle number ms

def readRestack (ms : Entries (Json α)) : Checked Restack :=
  Restack.mk <$> readIds ms <*> required "action" (named .unknownWord) ms

def readSelect (ms : Entries (Json α)) : Checked Select :=
  Select.mk <$> withDefault "ids" [] (listOf text) ms
    <*> withDefault "mode" .replace (named .unknownWord) ms

/-- Changes of the viewport. -/
def readView (ms : Entries (Json α)) : Checked (Changes α) :=
  (fun x y scale => [("x", .ofOption .num x), ("y", .ofOption .num y),
      ("scale", .ofOption .num scale)])
    <$> maybe "x" number ms <*> maybe "y" number ms <*> maybe "scale" (above 0) ms

def readSnap (ms : Entries (Json α)) : Checked (Snap α) :=
  Snap.mk <$> readPoint "x" "y" ms <*> maybe "arrow_id" text ms <*> maybe "threshold" number ms

/-- The path of a file, if one is named. -/
def readPath (ms : Entries (Json α)) : Checked (Option String) := maybe "path" text ms

end Body

end Whiteboard
