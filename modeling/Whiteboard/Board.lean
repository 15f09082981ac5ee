import Whiteboard.Element.Change
import Whiteboard.History

/-!
# Boards

A board that is worked on: its document, the clipboard and the history. An edit changes the
document, commits it to the history and tells the listeners. Within a batch nothing is committed,
so that a whole gesture becomes one step of the history.
-/

namespace Whiteboard

structure Board (α : Type) where
  document : Document α
  clipboard : List (Element α)
  history : History (Document α)
  /-- Whether commits are held back. -/
  batching : Bool
  ids : IdSupply
  /-- How often the listeners were told of a change. -/
  changes : Nat

/-- What came of an edit, and the board after it. A refused edit leaves the board as far as it
came. -/
abbrev Outcome (α β : Type) := Except EditError β × Board α

namespace Outcome

variable {α β γ : Type}

/-- Goes on unless the edit was refused. -/
def andThen (o : Outcome α β) (f : β → Board α → Outcome α γ) : Outcome α γ :=
  match o with
  | (.ok v, b) => f v b
  | (.error e, b) => (.error e, b)

end Outcome

/-- The document as its writing is read back. -/
def Document.reread {α : Type} [Scalar α] (d : Document α) : Except EditError (Document α) :=
  (Document.ofJson d.toJson).toEdit

namespace Board

variable {α : Type}

def elements (b : Board α) : List (Element α) := b.document.elements

def selected (b : Board α) : List String := b.document.selected

def viewport (b : Board α) : Viewport α := b.document.viewport

def withElements (b : Board α) (elements : List (Element α)) : Board α :=
  { b with document := { b.document with elements } }

def withSelected (b : Board α) (selected : List String) : Board α :=
  { b with document := { b.document with selected } }

/-- The first element with an id. -/
def element? (b : Board α) (id : String) : Option (Element α) := b.elements.find? (·.id == id)

/-- The elements whose ids are among the given ones. -/
def among (ids : List String) (elements : List (Element α)) : List (Element α) :=
  elements.filter fun e => ids.contains e.id

/-- The elements whose ids are not among the given ones. -/
def without (ids : List String) (elements : List (Element α)) : List (Element α) :=
  elements.filter fun e => !ids.contains e.id

def selectedElements (b : Board α) : List (Element α) := among b.selected b.elements

/-- A summary in one line. -/
def summary (b : Board α) : String :=
  s!"ElementStore(elements={b.elements.length}, selected={b.selected.length}, " ++
    s!"history={b.history.depth}/{b.history.limit})"

/-- Tells the listeners. -/
def notify (b : Board α) : Board α := { b with changes := b.changes + 1 }

variable [Scalar α]

/-- A board with a document at the start of its history. -/
def start (ids : IdSupply) (elements : List (Element α)) (viewport : Viewport α) (limit : Int) :
    Board α :=
  let document : Document α := Document.settled ⟨elements, [], viewport⟩
  { document
    clipboard := []
    history := .start limit document
    batching := false
    ids
    changes := 0 }

/-- Records the document, unless a batch is open. What is no number is recognized from then on. -/
def commit (b : Board α) : Board α :=
  if b.batching then b
  else
    let history := b.history.commit b.document
    { b with
      document := b.document.settled
      history := { history with current := history.current.settled } }

/-- Ends an edit. -/
def changed (b : Board α) : Board α := b.commit.notify

/-- Opens a batch, after the document was recorded as it is. -/
def beginBatch (b : Board α) : Board α := { b.commit with batching := true }

/-- Closes a batch and records what came of it. -/
def endBatch (b : Board α) : Board α := { b with batching := false }.commit

/-- Goes to another state of the history; false if there is none. -/
def travel (move : History (Document α) → Option (History (Document α))) (b : Board α) :
    Outcome α Bool :=
  match move b.history with
  | none => (.ok false, b)
  | some history =>
    let b := { b with history }
    match history.current.reread with
    | .error e => (.error e, b)
    | .ok document => (.ok true, { b with document }.notify)

def undo (b : Board α) : Outcome α Bool := b.travel History.undo?

def redo (b : Board α) : Outcome α Bool := b.travel History.redo?

/-- Takes over another document, with a new history or as one more step of the old one. -/
def load (document : Document α) (reset : Bool) (b : Board α) : Board α :=
  if reset then
    let document := document.settled
    { b with document, history := b.history.reset document }.notify
  else { b with document }.changed

/-! ## Selection and viewport -/

/-- Selects elements. This is no step of the history. -/
def select (ids : List String) (b : Board α) : Board α := (b.withSelected ids).notify

/-- Selects an element, or no longer. -/
def toggle (id : String) (b : Board α) : Board α :=
  (b.withSelected (if b.selected.contains id then b.selected.filter (· != id)
    else b.selected ++ [id])).notify

def clearSelection (b : Board α) : Board α := b.select []

/-- Changes the viewport; members that are null do not count. -/
def updateViewport (changes : Changes α) (b : Board α) : Outcome α (Viewport α) :=
  let given := changes.filter fun (_, v) => !v.isNull
  match (Viewport.ofJson (.obj (Entries.merge b.viewport.toMembers given))).toEdit with
  | .error e => (.error e, b)
  | .ok viewport =>
    (.ok viewport, { b with document := { b.document with viewport } }.changed)

end Board

end Whiteboard
