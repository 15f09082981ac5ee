import Whiteboard.Board.Clipboard
import Whiteboard.Board.Creation
import Whiteboard.Board.Grouping
import Whiteboard.Board.Stacking

/-!
# Edits

All that can be done to a board, as values, so that whole runs of edits can be spoken of.
-/

namespace Whiteboard

/-- One thing that is done to a board. -/
inductive Edit (α : Type) where
  | add (elements : List (Element α))
  | insert (elements : List (Element α))
  | update (id : String) (changes : Changes α) (rebind : Bool)
  | updateAll (batch : Batch α) (rebind : Bool)
  | delete (ids : List String)
  | load (document : Document α) (reset : Bool)
  | rotate (ids : List String) (angle : α)
  | setRotation (ids : List String) (target : α)
  | select (ids : List String)
  | toggle (id : String)
  | clearSelection
  | view (changes : Changes α)
  | copy
  | paste
  | create (kind : ElementKind) (draft : Draft α)
  | createArrow (start finish : Point α) (startBinding finishBinding : Option Binding)
  | moveEnd (id : String) (side : ArrowEnd) (place : Point α) (binding : Option Binding)
  | group (ids : List String)
  | ungroup (ids : List String)
  | bringToFront (ids : List String)
  | sendToBack (ids : List String)
  | bringForward (ids : List String)
  | sendBackward (ids : List String)
  | undo
  | redo
  | beginBatch
  | endBatch

/-- What an edit yields. -/
inductive Yield (α : Type) where
  | nothing
  | moved (moved : Bool)
  | copied (count : Nat)
  | element (element : Option (Element α))
  | elements (elements : List (Element α))
  | viewport (viewport : Viewport α)

namespace Outcome

variable {α β γ : Type}

/-- The same outcome with another value. -/
def map (f : β → γ) (o : Outcome α β) : Outcome α γ := (f <$> o.1, o.2)

end Outcome

namespace Board

variable {α : Type} [Scalar α]

/-- An edit that is never refused and yields nothing. -/
def quietly (b : Board α) : Outcome α (Yield α) := (.ok .nothing, b)

/-- Does one thing to a board. -/
def perform (b : Board α) : Edit α → Outcome α (Yield α)
  | .add es => (.ok (.elements es), b.add es)
  | .insert es => (.ok (.elements es), b.insert es)
  | .update id changes rebind => Outcome.map .element (b.update id changes rebind)
  | .updateAll batch rebind => Outcome.map (fun _ => .nothing) (b.updateAll batch rebind)
  | .delete ids => (b.delete ids).quietly
  | .load document reset => (b.load document reset).quietly
  | .rotate ids angle => Outcome.map (fun _ => .nothing) (b.rotate ids angle)
  | .setRotation ids target => Outcome.map (fun _ => .nothing) (b.setRotation ids target)
  | .select ids => (b.select ids).quietly
  | .toggle id => (b.toggle id).quietly
  | .clearSelection => b.clearSelection.quietly
  | .view changes => Outcome.map .viewport (b.updateViewport changes)
  | .copy => Outcome.map .copied b.copy
  | .paste => (.ok (.elements b.paste.1), b.paste.2)
  | .create kind draft => Outcome.map (.element ∘ some) (b.create kind draft)
  | .createArrow start finish startBinding finishBinding =>
    Outcome.map (.element ∘ some) (b.createArrow start finish startBinding finishBinding)
  | .moveEnd id side place binding => Outcome.map .element (b.moveEnd id side place binding)
  | .group ids => Outcome.map .element (b.group ids)
  | .ungroup ids => Outcome.map .elements (b.ungroup ids)
  | .bringToFront ids => (b.bringToFront ids).quietly
  | .sendToBack ids => (b.sendToBack ids).quietly
  | .bringForward ids => (b.bringForward ids).quietly
  | .sendBackward ids => (b.sendBackward ids).quietly
  | .undo => Outcome.map .moved b.undo
  | .redo => Outcome.map .moved b.redo
  | .beginBatch => b.beginBatch.quietly
  | .endBatch => b.endBatch.quietly

/-- Does several things to a board, also when some of them are refused. -/
def performAll (b : Board α) (edits : List (Edit α)) : Board α :=
  edits.foldl (fun b e => (b.perform e).2) b

end Board

end Whiteboard
