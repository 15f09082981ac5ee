import Whiteboard.Element.Change

/-!
# The frame slot

Between the pointer, which moves as it likes, and the board, which changes once a frame, stands a
slot for one batch. A new batch replaces the one that waits; a frame takes out what waits.
-/

namespace Whiteboard

/-- The batch that waits for the next frame, if any. -/
structure FrameSlot (α : Type) where
  pending : Option (Batch α)

namespace FrameSlot

variable {α : Type}

def empty : FrameSlot α := ⟨none⟩

def submit (_ : FrameSlot α) (batch : Batch α) : FrameSlot α := ⟨some batch⟩

/-- The batch to apply in this frame, and the emptied slot. An empty batch is not applied. -/
def take (s : FrameSlot α) : Option (Batch α) × FrameSlot α :=
  match s.pending with
  | none | some [] => (none, empty)
  | some batch => (some batch, empty)

def cancel (_ : FrameSlot α) : FrameSlot α := empty

end FrameSlot

end Whiteboard
