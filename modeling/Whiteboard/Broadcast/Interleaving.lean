import Whiteboard.Broadcast

/-!
# Interleaved telling

Joining and telling, cut into the steps between which others may act. A client joins in three steps:
it is accepted, sent the document, and taken in. The teller works in four: it clears the mark that
something changed, counts up, composes the summary, and sends it, and whoever it cannot reach is
dropped. Changes of the board only set the mark. What a client says is answered also when it is no
longer taken in.
-/

namespace Whiteboard

/-- How far a client has come in joining. -/
inductive Joining where
  | accepted
  /-- It was sent the document, but is not taken in yet. -/
  | informed
  deriving DecidableEq, Repr

/-- How far the teller has come with a summary. -/
inductive Telling (α : Type) where
  | idle
  /-- The mark is cleared. -/
  | woken
  /-- The number is counted up. -/
  | counted
  /-- The summary is composed, but not sent yet. -/
  | composed (notice : Notice α)

/-- A board with its clients, those who are about to join, the teller, and all that was sent. -/
structure Room (α : Type) where
  board : Board α
  hub : Hub
  /-- Whether something changed that the teller has not taken up. -/
  pending : Bool
  telling : Telling α
  joining : Entries Joining
  sent : Deliveries (Notice α)

namespace Room

variable {α : Type}

/-- One step of one of those in a room. -/
inductive Move (α : Type) where
  | change (board : Board α)
  | accept (client : String)
  | inform (client : String)
  | register (client : String)
  | leave (client : String)
  | say (client said : String)
  | wake
  | count
  | compose
  | send (reaches : String → Bool)

/-- A room in which nothing has happened. -/
def empty (b : Board α) : Room α := ⟨b, .empty, false, .idle, [], []⟩

/-- What a client was sent, in order. -/
def inbox (r : Room α) (client : String) : List (Notice α) :=
  (r.sent.filter (·.1 == client)).map (·.2)

/-- The last notice that told a client what the document is like. -/
def lastNews? (r : Room α) (client : String) : Option (Notice α) :=
  ((r.inbox client).filter Notice.isNews).getLast?

/-- Whether a client never joined; who joins again is a new client. -/
def isNew (r : Room α) (client : String) : Bool :=
  !r.hub.clients.contains client && !Entries.has client r.joining && (r.inbox client).isEmpty

/-- Whether nothing is under way. -/
def isQuiet (r : Room α) : Bool :=
  !r.pending && r.joining.isEmpty &&
    match r.telling with
    | .idle => true
    | _ => false

/-- Sends messages. -/
def deliver (ds : Deliveries (Notice α)) (r : Room α) : Room α := { r with sent := r.sent ++ ds }

/-- The room after a step, if the step can be made. -/
def move? (r : Room α) : Move α → Option (Room α)
  | .change board => some { r with board, pending := true }
  | .accept client =>
    if r.isNew client then some { r with joining := Entries.set client .accepted r.joining }
    else none
  | .inform client =>
    if Entries.get? client r.joining = some .accepted then
      some ({ r with joining := Entries.set client .informed r.joining }.deliver
        [(client, r.hub.snapshot r.board)])
    else none
  | .register client =>
    if Entries.get? client r.joining = some .informed then
      some { r with hub := r.hub.register client, joining := Entries.erase client r.joining }
    else none
  | .leave client =>
    some { r with hub := r.hub.disconnect client, joining := Entries.erase client r.joining }
  | .say client said =>
    if Entries.has client r.joining || (r.inbox client).isEmpty then none
    else some (r.deliver ((r.hub.reply? said r.board).toList.map fun notice => (client, notice)))
  | .wake =>
    match r.telling with
    | .idle => if r.pending then some { r with pending := false, telling := .woken } else none
    | _ => none
  | .count =>
    match r.telling with
    | .woken => some { r with hub := r.hub.advance, telling := .counted }
    | _ => none
  | .compose =>
    match r.telling with
    | .counted => some { r with telling := .composed (r.hub.summary r.board) }
    | _ => none
  | .send reaches =>
    match r.telling with
    | .composed notice =>
      let (sent, hub) := r.hub.broadcast reaches notice
      some ({ r with hub, telling := .idle }.deliver sent)
    | _ => none

/-- The room after several steps, if all of them can be made. -/
def run? : Room α → List (Move α) → Option (Room α)
  | r, [] => some r
  | r, m :: ms => (r.move? m).bind fun r => run? r ms

/-- The steps of joining without anything between them. -/
def joinMoves (client : String) : List (Move α) :=
  [.accept client, .inform client, .register client]

/-- The steps of telling without anything between them. -/
def tellMoves (reaches : String → Bool) : List (Move α) := [.wake, .count, .compose, .send reaches]

end Room

end Whiteboard
