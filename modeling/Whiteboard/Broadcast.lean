import Whiteboard.Board

/-!
# Telling clients of changes

A client is sent the whole document when it joins, and from then on a summary after every change.
Each summary has a number, one more than the one before, so that a client can see that it missed one
and ask for the document again. A client that cannot be reached is dropped.
-/

namespace Whiteboard

/-- The clients that are told of changes, and the number of the latest summary. -/
structure Hub where
  clients : List String
  revision : Nat
  deriving DecidableEq, Repr

/-- What a client is sent. -/
inductive Notice (α : Type) where
  /-- The whole document. -/
  | state (revision : Nat) (document : Document α)
  /-- What changed, without the document. -/
  | updated (revision elements : Nat) (selected : List String) (canUndo canRedo : Bool)
      (depth : Nat)
  /-- The answer to a sign of life. -/
  | alive (revision : Nat)

/-- Messages and the clients that they go to, in the order in which they are sent. -/
abbrev Deliveries (μ : Type) := List (String × μ)

namespace Notice

variable {α : Type}

/-- The number of the summary up to which a notice tells of changes. -/
def revision : Notice α → Nat
  | state r _ | updated r .. | alive r => r

/-- Whether a notice tells what the document is like. -/
def isNews : Notice α → Bool
  | alive _ => false
  | _ => true

def toJson : Notice α → Json α
  | state r d =>
    .obj [("type", .str "canvas_state"), ("revision", .ofNat r), ("canvas", d.toJson)]
  | updated r elements selected canUndo canRedo depth =>
    .obj [("type", .str "canvas_updated"), ("revision", .ofNat r),
      ("element_count", .ofNat elements), ("selected_ids", .ofStrings selected),
      ("can_undo", .bool canUndo), ("can_redo", .bool canRedo), ("history_depth", .ofNat depth)]
  | alive r => .obj [("type", .str "pong"), ("revision", .ofNat r)]

end Notice

namespace Hub

variable {α μ : Type}

def empty : Hub := ⟨[], 0⟩

/-- The document as clients are sent it. -/
def snapshot (h : Hub) (b : Board α) : Notice α := .state h.revision b.document

/-- The summary of a board. -/
def summary (h : Hub) (b : Board α) : Notice α :=
  .updated h.revision b.elements.length b.selected b.history.canUndo b.history.canRedo
    b.history.depth

/-- Takes in a client, once. -/
def register (client : String) (h : Hub) : Hub :=
  if h.clients.contains client then h else { h with clients := h.clients ++ [client] }

/-- Forgets a client. -/
def disconnect (client : String) (h : Hub) : Hub :=
  { h with clients := h.clients.filter (· != client) }

/-- Sends the document to a new client and takes it in. There is no result if the client cannot be
reached, and then it is not taken in. -/
def connect? (reaches : String → Bool) (client : String) (b : Board α) (h : Hub) :
    Option (Deliveries (Notice α) × Hub) :=
  if reaches client then some ([(client, h.snapshot b)], h.register client) else none

/-- The answer to what a client says, if there is one. -/
def reply? (said : String) (b : Board α) (h : Hub) : Option (Notice α) :=
  if said = "ping" then some (.alive h.revision)
  else if said = "sync" then some (h.snapshot b)
  else none

/-- Answers a client. There is no result if there is an answer and the client cannot be reached. -/
def answer? (reaches : String → Bool) (client said : String) (b : Board α) (h : Hub) :
    Option (Deliveries (Notice α)) :=
  match h.reply? said b with
  | none => some []
  | some notice => if reaches client then some [(client, notice)] else none

/-- Sends one message to all clients and drops those that cannot be reached. -/
def broadcast (reaches : String → Bool) (message : μ) (h : Hub) : Deliveries μ × Hub :=
  let reached := h.clients.filter reaches
  (reached.map fun client => (client, message), { h with clients := reached })

/-- Makes way for the next summary. -/
def advance (h : Hub) : Hub := { h with revision := h.revision + 1 }

/-- Tells all clients of a change. -/
def notify (reaches : String → Bool) (b : Board α) (h : Hub) : Deliveries (Notice α) × Hub :=
  let h := h.advance
  h.broadcast reaches (h.summary b)

end Hub

end Whiteboard
