import Whiteboard.Board.Content
import Whiteboard.Gesture.Resize
import Whiteboard.Gesture.Slot

/-!
# Gestures

One drag or resize of elements of a board. A drag goes live once the pointer has left the
surroundings of its origin, a resize at once. Then a batch is opened, which the release closes, so
that the gesture is one step of the history.
-/

namespace Whiteboard

structure Gesture (α : Type) where
  origin : Point α
  /-- The handle that is dragged; without one the elements themselves are. -/
  handle : Option Handle
  threshold : α
  live : Bool
  guides : List (Guide α)
  slot : FrameSlot α
  /-- The boxes of the elements when the gesture began, in their order. -/
  starts : Entries (Box α)

namespace Gesture

variable {α : Type} [Scalar α]

/-- How far a pointer may stray without dragging, in units of the screen. -/
def defaultThreshold : α := 5

/-- The boxes that elements of a board have; ids that name none are left out. -/
def boxesOf (elements : List (Element α)) (ids : List String) : Entries (Box α) :=
  Entries.ofList (ids.filterMap fun id =>
    (GestureFrame.lastOf? elements id).map fun e => (id, e.frame.box))

/-- Begins a gesture with the given elements, or else with the selected ones. -/
def start (b : Board α) (origin : Point α) (ids : Option (List String)) (handle : Option Handle)
    (threshold : α) : Gesture α :=
  { origin
    handle
    threshold
    live := false
    guides := []
    slot := .empty
    starts := boxesOf b.elements (ids.getD b.selected) }

/-- Where the elements were when the gesture began. -/
def places (g : Gesture α) : Entries (Point α) := g.starts.mapValues fun b => ⟨b.x, b.y⟩

/-- Whether a pointer that moved by `(dx, dy)` makes the gesture go live. -/
def goesLive (g : Gesture α) (viewport : Viewport α) (dx dy : α) : Bool :=
  g.live || g.handle.isSome || !(Scalar.hypot dx dy ≤ g.threshold / viewport.scale : Bool)

/-- What a pointer that moved by `(dx, dy)` asks for. -/
def frame (g : Gesture α) (b : Board α) (dx dy : α) (keepRatio : Bool) :
    Except EditError (GestureFrame α) :=
  match g.handle with
  | none => .ok (.drag b.elements g.places dx dy (some b.viewport) Guide.defaultReach)
  | some h =>
    GestureFrame.resize b.elements g.starts h dx dy keepRatio (some b.viewport) Guide.defaultReach

/-- Moves the pointer. The result tells whether the gesture is live. -/
def move (pointer : Point α) (keepRatio : Bool) (g : Gesture α) (b : Board α) :
    Except EditError Bool × Gesture α × Board α :=
  let dx := pointer.x - g.origin.x
  let dy := pointer.y - g.origin.y
  if !g.goesLive b.viewport dx dy then (.ok false, g, b)
  else
    let b := if g.live then b else b.beginBatch
    let g := { g with live := true }
    match g.frame b dx dy keepRatio with
    | .error e => (.error e, g, b)
    | .ok f => (.ok true, { g with guides := f.guides, slot := g.slot.submit f.updates }, b)

/-- Applies what waits for this frame; the result tells whether there was something. -/
def tick (g : Gesture α) (b : Board α) : Except EditError Bool × Gesture α × Board α :=
  let (batch, slot) := g.slot.take
  let g := { g with slot }
  match batch with
  | none => (.ok false, g, b)
  | some batch =>
    match b.updateAll batch false with
    | (.error e, b) => (.error e, g, b)
    | (.ok _, b) => (.ok true, g, b)

/-- Drops what waits for the next frame. -/
def cancel (g : Gesture α) : Gesture α := { g with slot := g.slot.cancel }

/-- Applies what waits and closes the batch. -/
def release (g : Gesture α) (b : Board α) : Except EditError Unit × Gesture α × Board α :=
  match g.tick b with
  | (.error e, g, b) => (.error e, g, b)
  | (.ok _, g, b) =>
    let b := if g.live then b.endBatch else b
    (.ok (), { g with guides := [], live := false }, b)

end Gesture

end Whiteboard
