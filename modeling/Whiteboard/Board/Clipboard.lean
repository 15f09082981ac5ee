import Whiteboard.Board.Content

/-!
# Copying and pasting

Pasting adds copies under new ids, at all depths of groups, a little off their models. The copies
become the new clipboard, so that pasting again moves on.
-/

namespace Whiteboard

variable {α : Type}

namespace Element

mutual

/-- A copy under new ids, those of groups before those of their children. -/
def renamed (ids : IdSupply) : Element α → Element α × IdSupply
  | shape f k s => (shape { f with id := ids.elementId } k s, ids.next)
  | image f i => (image { f with id := ids.elementId } i, ids.next)
  | text f t => (text { f with id := ids.elementId } t, ids.next)
  | group f cs =>
    let (cs, rest) := renamedAll ids.next cs
    (group { f with id := ids.elementId } cs, rest)

def renamedAll (ids : IdSupply) : List (Element α) → List (Element α) × IdSupply
  | [] => ([], ids)
  | e :: rest =>
    let (e, ids) := renamed ids e
    let (rest, ids) := renamedAll ids rest
    (e :: rest, ids)

end

/-- The element moved by an offset. -/
def shift [Scalar α] (dx dy : α) (e : Element α) : Element α := e.moveTo (e.x + dx) (e.y + dy)

end Element

namespace Board

variable [Scalar α]

/-- How deep groups may be nested where they are copied. -/
def maxCopyNesting : Nat := 164

/-- Goes on unless elements are nested too deep to be copied. -/
def copyable (elements : List (Element α)) : Except EditError Unit :=
  if Element.nestingOf elements ≤ maxCopyNesting then .ok () else .error .tooDeep

/-- Copies the selected elements; the result is their number. -/
def copy (b : Board α) : Outcome α Nat :=
  let clipboard := b.selectedElements
  Outcome.andThen (copyable clipboard, b) fun _ b =>
    (.ok clipboard.length, { b with clipboard })

/-- The document to be handed out, which is a copy. -/
def snapshot (b : Board α) : Except EditError (Document α) :=
  (copyable b.elements).map fun _ => b.document

/-- How far off their models copies are pasted. -/
def pasteOffset : α := 20

/-- Pastes the clipboard and selects what was pasted. -/
def paste (b : Board α) : List (Element α) × Board α :=
  if b.clipboard.isEmpty then ([], b)
  else
    let (copies, ids) := Element.renamedAll b.ids b.clipboard
    let pasted := copies.map (Element.shift pasteOffset pasteOffset)
    (pasted, { b with clipboard := pasted, ids }.insert pasted)

end Board

end Whiteboard
