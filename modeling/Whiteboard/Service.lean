import Whiteboard.Anchor
import Whiteboard.Archive
import Whiteboard.Board.Clipboard
import Whiteboard.Board.Grouping
import Whiteboard.Board.Stacking
import Whiteboard.Broadcast
import Whiteboard.Diagram.Samples
import Whiteboard.Service.Body
import Whiteboard.Service.Endpoint
import Whiteboard.Settings

/-!
# The service

A board that is worked on by requests. Each request is answered from the board as it stands and
leaves the next one. Clients that listen are told once of all that one step changed.
-/

namespace Whiteboard

/-- A board with its listeners and the disk on which it is kept. -/
structure Service (α : Type) where
  board : Board α
  hub : Hub
  /-- How many changes of the board the listeners were told of. -/
  told : Nat
  disk : Disk
  home : DiskPath
  /-- Where the board is kept if no path is named. -/
  storage : DiskPath
  settings : Settings α

/-- The answer to a request. -/
inductive Response (α : Type) where
  | success (value : Json α)
  /-- A refusal with the reason. -/
  | problem (status : Nat) (detail : String)
  /-- What came with the request did not pass the checks. -/
  | invalid (issues : List Issue)
  /-- The target is to be asked for without the separators at its end. -/
  | moved

/-- Why a request is not answered at all. -/
inductive ServiceError where
  | edit (error : EditError)
  | drawing (error : DrawingError)
  | disk (error : DiskError)
  | load (error : Archive.LoadError)
  /-- The answer holds a number that JSON does not write. -/
  | unwritable
  deriving DecidableEq, Repr

namespace Response

variable {α : Type}

def status : Response α → Nat
  | success _ => 200
  | problem status _ => status
  | invalid _ => 422
  | moved => 307

/-- The body; issues are told by their report. -/
def body : Response α → Json α
  | success value => value
  | problem _ detail => .obj [("detail", .str detail)]
  | invalid issues => .str (Issue.report issues)
  | moved => .null

/-- A success with something to tell. -/
def done (members : Entries (Json α)) : Response α :=
  success (.obj (("success", .bool true) :: members))

/-- A request that had nothing to do. -/
def idle (message : String) : Response α :=
  success (.obj [("success", .bool false), ("message", .str message)])

/-- The element that a request made or changed. -/
def element (e : Element α) : Response α := done [("element", e.toJson)]

/-- A request that led nowhere. -/
def ofMisroute : Misroute → Response α
  | .unknownPath => problem 404 "Not Found"
  | .unknownVerb => problem 405 "Method Not Allowed"
  | .trailing => moved

/-- The ids of elements. -/
def idsOf (es : List (Element α)) : Json α := .ofStrings (es.map Element.id)

end Response

/-- What the issues found in values are summed up as. -/
def Issue.count (issues : List Issue) : String :=
  match issues.length with
  | 1 => "1 validation error"
  | n => s!"{n} validation errors"

/-- What a client is told of a refused edit; some refusals it is not told of. -/
def EditError.detail? : EditError → Option String
  | .invalid issues => some (Issue.count issues)
  | e => e.message?

/-- What is said when a number cannot be written. -/
def ServiceError.unwritableText : String := "Out of range float values are not JSON compliant"

namespace Service

variable {α β : Type} [Scalar α]

/-- What comes of a request: the answer, or why there is none, and the service after it. -/
abbrev Answer (α : Type) := Except ServiceError (Response α) × Service α

/-- A service with an empty board. -/
def start (settings : Settings α) (home storage : DiskPath) (ids : IdSupply) (disk : Disk) :
    Service α where
  board := .start ids [] .initial settings.historyLimit
  hub := .empty
  told := 0
  disk
  home
  storage
  settings

def withBoard (board : Board α) (s : Service α) : Service α := { s with board }

def withDisk (disk : Disk) (s : Service α) : Service α := { s with disk }

def withIds (ids : IdSupply) (s : Service α) : Service α := s.withBoard { s.board with ids }

/-- An answer that changes nothing. -/
def tell (r : Response α) (s : Service α) : Answer α := (.ok r, s)

/-- No answer, and nothing changes. -/
def fail (e : ServiceError) (s : Service α) : Answer α := (.error e, s)

/-- Goes on with the board as it is handed out. -/
def withSnapshot (s : Service α) (go : Document α → Answer α) : Answer α :=
  match s.board.snapshot with
  | .ok document => go document
  | .error e => s.fail (.edit e)

/-- The answer that shows the whole board. -/
def show? (members : Entries (Json α)) (s : Service α) : Answer α :=
  s.withSnapshot fun document =>
    s.tell (.done (members ++ [("canvas", document.toJson)]))

/-- Goes on after an edit whose refusal no client is told of. -/
def edited (o : Outcome α β) (s : Service α) (go : β → Service α → Answer α) : Answer α :=
  match o with
  | (.ok v, b) => go v (s.withBoard b)
  | (.error e, b) => (s.withBoard b).fail (.edit e)

/-- Goes on after an edit, or tells that it was refused. -/
def granted (o : Outcome α β) (s : Service α) (go : β → Service α → Answer α) : Answer α :=
  match o with
  | (.ok v, b) => go v (s.withBoard b)
  | (.error e, b) =>
    match e.detail? with
    | some detail => (s.withBoard b).tell (.problem 400 detail)
    | none => (s.withBoard b).fail (.edit e)

/-- Goes on with what came with a request, or tells what is wrong with it. -/
def withBody (read : Json α → Checked β) (r : Request α) (s : Service α)
    (go : β → Answer α) : Answer α :=
  match r.payload.toJson? with
  | .error (.malformed position) =>
    s.tell (.invalid [⟨["body", toString position], .malformed⟩])
  | .error _ => s.tell (.problem 400 "There was an error parsing the body")
  | .ok none => s.tell (.invalid [⟨["body"], .missing⟩])
  | .ok (some v) =>
    match (read v).under "body" with
    | .ok x => go x
    | .bad issues => s.tell (.invalid issues)

/-- Goes on with the record that came with a request. -/
def withRecord (read : Entries (Json α) → Checked β) (r : Request α) (s : Service α)
    (go : β → Answer α) : Answer α :=
  s.withBody (Body.record read) r go

/-! ## Diagrams -/

def parse (b : Body.Source) (s : Service α) : Answer α :=
  match Diagram.parse (some b.text) (b.format.map Named.name) with
  | .ok g => s.tell (.done g.report)
  | .error e => s.tell (.problem 400 e.message)

/-- How what came with a request is to be drawn. -/
def styleOf (b : Body.Import α) (s : Service α) : DrawingStyle α :=
  ⟨b.bend, b.palette, b.strength, ⟨s.settings.nodeSpacing, .scalar s.settings.layerSpacing⟩⟩

def importSource (b : Body.Import α) (s : Service α) : Answer α :=
  match Drawing.ofSource s.board.ids (some b.source.text) (b.source.format.map Named.name)
    b.origin (s.styleOf b) with
  | (.error (.source e), _) => s.tell (.problem 400 e.message)
  | (.error e, ids) => (s.withIds ids).fail (.drawing e)
  | (.ok elements, ids) =>
    let s := s.withIds ids
    (s.withBoard (s.board.insert elements)).show? [("imported", Response.idsOf elements)]

def sample (format : String) (t : Target) (s : Service α) : Answer α :=
  match (Named.ofName? format : Option Diagram.Format) with
  | none => s.tell (.invalid [⟨["path", "fmt"], .unknownName⟩])
  | some f =>
    s.tell (.success (.obj [("format", .str (Named.name f)),
      ("text", .str (Diagram.sample f ((t.value? "variant").getD "class")))]))

/-! ## Elements -/

/-- Adds an element that is given in full. -/
def addGiven (members : Entries (Json α)) (s : Service α) : Answer α :=
  match Element.read s.board.ids (.obj members) with
  | (.bad issues, ids) => (s.withIds ids).tell (.problem 400 (Issue.count issues))
  | (.ok e, ids) =>
    let s := s.withIds ids
    (s.withBoard (s.board.add [e])).tell (.element e)

/-- Makes a new element of the kind of a name. -/
def createNamed (name : String) (draft : Draft α) (s : Service α) : Answer α :=
  match (Named.ofName? name : Option ElementKind) with
  | none =>
    s.tell (.problem 400 (UnknownName.message ⟨Text.quote name, Named.title ElementKind⟩))
  | some kind => s.granted (s.board.create kind draft) fun e s => s.tell (.element e)

def create (b : Body.Create α) (s : Service α) : Answer α :=
  match b.element, b.kind with
  | some members, _ => s.addGiven members
  | none, some name => s.createNamed name b.draft
  | none, none => s.tell (.problem 400 "Either element or type is required")

def update (id : String) (changes : Changes α) (s : Service α) : Answer α :=
  s.granted (s.board.update id changes true) fun e? s =>
    match e? with
    | some e => s.tell (.element e)
    | none => s.tell (.problem 404 "Element not found")

def updateAll (batch : Batch α) (s : Service α) : Answer α :=
  s.granted (s.board.updateAll batch true) fun _ s => s.show? []

def delete (ids : List String) (s : Service α) : Answer α :=
  (s.withBoard (s.board.delete ids)).show? []

def rotate (b : Body.Turn α) (s : Service α) : Answer α :=
  s.edited (s.board.rotate b.ids b.angle) fun _ s => s.show? []

def setRotation (b : Body.Turn α) (s : Service α) : Answer α :=
  s.edited (s.board.setRotation b.ids b.angle) fun _ s => s.show? []

def reorder (b : Body.Restack) (s : Service α) : Answer α :=
  let board :=
    match b.how with
    | .front => s.board.bringToFront b.ids
    | .back => s.board.sendToBack b.ids
    | .forward => s.board.bringForward b.ids
    | .backward => s.board.sendBackward b.ids
  (s.withBoard board).show? []

def group (ids : List String) (s : Service α) : Answer α :=
  s.edited (s.board.group ids) fun g? s =>
    match g? with
    | some g => s.show? [("group_id", .str g.id)]
    | none => s.tell (.problem 400 "Need at least 2 elements to group")

def ungroup (ids : List String) (s : Service α) : Answer α :=
  s.edited (s.board.ungroup ids) fun es s => s.show? [("released", Response.idsOf es)]

/-! ## Arrows -/

def createArrow (b : Body.Arrow α) (s : Service α) : Answer α :=
  s.edited (s.board.createArrow b.start b.finish b.startBinding b.finishBinding)
    fun e s => s.tell (.element e)

def moveEnd (id : String) (b : Body.MoveEnd α) (s : Service α) : Answer α :=
  s.edited (s.board.moveEnd id b.side b.place b.binding) fun e? s =>
    match e? with
    | some e => s.tell (.element e)
    | none => s.tell (.problem 404 "Arrow not found")

def snap (b : Body.Snap α) (s : Service α) : Answer α :=
  let reach := b.reach.getD s.settings.snapThreshold
  s.tell (.success
    (SnapPoint.report b.place (SnapPoint.snap? s.board.elements b.arrow b.place reach)))

/-! ## Selection, viewport and clipboard -/

def select (b : Body.Select) (s : Service α) : Answer α :=
  let board :=
    match b.how with
    | .clear => s.board.clearSelection
    | .toggle => b.ids.foldl (fun board id => board.toggle id) s.board
    | .replace => s.board.select b.ids
  (s.withBoard board).tell (.done [("selected_ids", .ofStrings board.selected)])

def view (changes : Changes α) (s : Service α) : Answer α :=
  s.edited (s.board.updateViewport changes) fun v s => s.tell (.done [("viewport", v.toJson)])

def copy (s : Service α) : Answer α :=
  s.edited s.board.copy fun n s => s.tell (.done [("copied", .ofNat n)])

def paste (s : Service α) : Answer α :=
  let (es, board) := s.board.paste
  (s.withBoard board).show? [("pasted", Response.idsOf es)]

/-! ## History -/

/-- Goes to another state of the history, or tells that there is none. -/
def travel (o : Outcome α Bool) (nothing : String) (s : Service α) : Answer α :=
  s.edited o fun moved s => if moved then s.show? [] else s.tell (.idle nothing)

/-- Opens or closes a batch. -/
def batch (board : Board α) (s : Service α) : Answer α :=
  (s.withBoard board).tell (.done [("batching", .bool board.batching)])

/-! ## Keeping -/

/-- Goes on with the file that a request names, or the usual one. -/
def withFile (path : Option String) (s : Service α) (go : DiskPath → Answer α) : Answer α :=
  match path with
  | none | some "" => go s.storage
  | some path =>
    match (DiskPath.ofText path).expandHome s.home with
    | some p => go p
    | none => s.fail (.disk .homeless)

def save [NumberText α] (path : Option String) (s : Service α) : Answer α :=
  s.withSnapshot fun document =>
    s.withFile path fun p =>
      match Archive.save document p s.disk with
      | (.ok (), disk) => (s.withDisk disk).tell (.done [("path", .str p.text)])
      | (.error .cutShort, disk) => (s.withDisk disk).fail (.disk .cutShort)
      | (.error _, disk) => (s.withDisk disk).tell (.problem 500 "Failed to save")

def load (path : Option String) (s : Service α) : Answer α :=
  s.withFile path fun p =>
    match Archive.load s.board.ids p s.disk with
    | (.error e, disk, ids) => ((s.withDisk disk).withIds ids).fail (.load e)
    | (.ok none, disk, ids) =>
      ((s.withDisk disk).withIds ids).tell (.idle "No saved canvas state")
    | (.ok (some d), disk, ids) =>
      let s := (s.withDisk disk).withIds ids
      (s.withBoard (s.board.load d true)).show? []

/-! ## Requests -/

/-- The whole board, and where it stands in its history. -/
def boardMembers (document : Document α) (b : Board α) : Entries (Json α) :=
  document.toMembers ++
    [("can_undo", .bool b.history.canUndo), ("can_redo", .bool b.history.canRedo)]

/-- The answer of an endpoint. -/
def respond [NumberText α] (r : Request α) (s : Service α) : Endpoint → Answer α
  | .health =>
    s.tell (.success (.obj [("status", .str "ok"), ("connections", .ofNat s.hub.clients.length)]))
  | .board =>
    s.withSnapshot fun document => s.tell (.success (.obj (boardMembers document s.board)))
  | .parse => s.withRecord Body.readSource r fun b => s.parse b
  | .importSource => s.withRecord Body.readImport r fun b => s.importSource b
  | .sample format => s.sample format r.target
  | .create => s.withRecord Body.readCreate r fun b => s.create b
  | .update id => s.withBody (Schema.members .mapExpected) r fun changes => s.update id changes
  | .updateAll => s.withRecord Body.readBatch r fun batch => s.updateAll batch
  | .delete => s.delete (r.target.values "ids")
  | .rotate => s.withRecord (Body.readTurn "angle") r fun b => s.rotate b
  | .setRotation => s.withRecord (Body.readTurn "rotation") r fun b => s.setRotation b
  | .reorder => s.withRecord Body.readRestack r fun b => s.reorder b
  | .group => s.withRecord Body.readIds r fun ids => s.group ids
  | .ungroup => s.withRecord Body.readIds r fun ids => s.ungroup ids
  | .createArrow => s.withRecord Body.readArrow r fun b => s.createArrow b
  | .moveEnd id => s.withRecord Body.readMoveEnd r fun b => s.moveEnd id b
  | .snap => s.withRecord Body.readSnap r fun b => s.snap b
  | .select => s.withRecord Body.readSelect r fun b => s.select b
  | .view => s.withRecord Body.readView r fun changes => s.view changes
  | .copy => s.copy
  | .paste => s.paste
  | .undo => s.travel s.board.undo "Nothing to undo"
  | .redo => s.travel s.board.redo "Nothing to redo"
  | .beginBatch => s.batch s.board.beginBatch
  | .endBatch => s.batch s.board.endBatch
  | .save => s.withRecord Body.readPath r fun path => s.save path
  | .load => s.withRecord Body.readPath r fun path => s.load path

/-- An answer is given if all its numbers can be written. -/
def written : Answer α → Answer α
  | (.ok r, s) => if r.body.numbers.all Scalar.isFinite then s.tell r else s.fail .unwritable
  | (.error e, s) => s.fail e

/-- Answers a request. -/
def answer [NumberText α] (r : Request α) (s : Service α) : Answer α :=
  match Endpoint.find r.verb r.target.path with
  | .error e => s.tell (.ofMisroute e)
  | .ok endpoint => written (s.respond r endpoint)

/-! ## Listeners -/

/-- A client begins to listen; it is not taken in if it cannot be reached. -/
def listen (reaches : String → Bool) (client : String) (s : Service α) :
    Deliveries (Notice α) × Service α :=
  match s.hub.connect? reaches client s.board with
  | some (sent, hub) => (sent, { s with hub })
  | none => ([], s)

/-- A client says something; it is let go if it cannot be reached. -/
def hear (reaches : String → Bool) (client said : String) (s : Service α) :
    Deliveries (Notice α) × Service α :=
  match s.hub.answer? reaches client said s.board with
  | some sent => (sent, s)
  | none => ([], { s with hub := s.hub.disconnect client })

/-- A client no longer listens. -/
def forget (client : String) (s : Service α) : Service α :=
  { s with hub := s.hub.disconnect client }

/-- Tells the listeners that the board changed, if they were not told yet. -/
def announce (reaches : String → Bool) (s : Service α) : Deliveries (Notice α) × Service α :=
  if s.told = s.board.changes then ([], s)
  else
    let (sent, hub) := s.hub.notify reaches s.board
    (sent, { s with hub, told := s.board.changes })

end Service

/-- What happens to a service. -/
inductive Event (α : Type) where
  | request (request : Request α)
  | listen (client : String)
  | say (client said : String)
  | leave (client : String)

/-- What an event brings about: the answer if it is a request, or why there is none, and all that
clients are sent. -/
structure Reaction (α : Type) where
  response : Except ServiceError (Option (Response α))
  sent : Deliveries (Notice α)

namespace Service

variable {α : Type} [Scalar α] [NumberText α]

/-- What an event brings about, before anybody is told of changes. -/
def handle (reaches : String → Bool) (s : Service α) : Event α → Reaction α × Service α
  | .request r =>
    let (response, s) := s.answer r
    (⟨response.map some, []⟩, s)
  | .listen client =>
    let (sent, s) := s.listen reaches client
    (⟨.ok none, sent⟩, s)
  | .say client said =>
    let (sent, s) := s.hear reaches client said
    (⟨.ok none, sent⟩, s)
  | .leave client => (⟨.ok none, []⟩, s.forget client)

/-- What an event brings about. Clients are told of changes also where there is no answer. -/
def step (reaches : String → Bool) (s : Service α) (e : Event α) : Reaction α × Service α :=
  let (reaction, s) := s.handle reaches e
  let (told, s) := s.announce reaches
  ({ reaction with sent := reaction.sent ++ told }, s)

/-- What events bring about one after the other. A request without an answer does not end the
service. -/
def run (reaches : String → Bool) (s : Service α) : List (Event α) → List (Reaction α) × Service α
  | [] => ([], s)
  | e :: rest =>
    let (reaction, s) := s.step reaches e
    let (reactions, s) := run reaches s rest
    (reaction :: reactions, s)

end Service

end Whiteboard
