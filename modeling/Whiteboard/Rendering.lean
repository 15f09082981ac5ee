import Whiteboard.Board
import Whiteboard.Fault
import Whiteboard.Geometry

/-!
# Rendering

Elements are drawn by a renderer, which is no part of a board and may refuse what it is asked. A
board is never changed by that.
-/

namespace Whiteboard

/-- What a renderer with states `σ` and captured images `ι` does. Where it refuses, its state
stays. -/
structure Renderer (α σ ι : Type) where
  /-- Draws an element; one that was drawn before is replaced. -/
  draw : Element α → σ → Option σ
  /-- Takes over positions, rotations and the order of the stack. -/
  arrange : List (Element α) → σ → σ
  /-- Takes over a viewport. -/
  view : Viewport α → σ → σ
  /-- Captures the elements with the given ids, with a margin around their box. -/
  capture : List String → Box α → α → σ → Option (ι × σ)

namespace Renderer

variable {α σ ι : Type}

/-- Draws elements in order, up to the first that is refused; `count` were drawn before. -/
def drawFrom (r : Renderer α σ ι) (count : Nat) :
    List (Element α) → σ → Except (Fault α) Nat × σ
  | [], s => (.ok count, s)
  | e :: rest, s =>
    match r.draw e s with
    | some s => r.drawFrom (count + 1) rest s
    | none => (.error ⟨"Failed to render element", [("element_id", .str e.id)]⟩, s)

/-- Draws elements; the result is their number. -/
def drawAll (r : Renderer α σ ι) (elements : List (Element α)) (s : σ) :
    Except (Fault α) Nat × σ :=
  r.drawFrom 0 elements s

/-- Brings a renderer in line with a board. -/
def sync (r : Renderer α σ ι) (b : Board α) (s : σ) : σ :=
  r.view b.viewport (r.arrange b.elements s)

variable [Scalar α]

/-- The margin of a captured image if nothing else is said. -/
def defaultPadding : α := 20

/-- Captures the selected elements; without a selection there is nothing to capture. -/
def captureSelection (r : Renderer α σ ι) (b : Board α) (padding : α) (s : σ) :
    Except (Fault α) (Option ι) × σ :=
  match b.selectedElements with
  | [] => (.ok none, s)
  | elements =>
    match r.capture (elements.map Element.id) (Element.boundingBox elements) padding s with
    | some (image, s) => (.ok (some image), s)
    | none => (.error ⟨"Export failed", [("count", .ofNat elements.length)]⟩, s)

end Renderer

end Whiteboard
