import Whiteboard.CommandLine.Arguments
import Whiteboard.Disk
import Whiteboard.Drawing
import Whiteboard.Json.Reader
import Whiteboard.Json.Writer
import Whiteboard.Settings
import Whiteboard.Text.Line

/-!
# The command line

Reading, laying out and drawing diagrams, handing them to a running service, or running one. A
command does one thing in the end: it prints a value, sends a request or starts a service.
-/

namespace Whiteboard

/-- Where a diagram source comes from: a text, or else a file, or else the standard input. -/
structure SourceOptions where
  text : Option String
  file : Option String
  format : Option String
  deriving DecidableEq, Repr

/-- How a diagram is to be drawn. -/
structure DrawingOptions (α : Type) where
  origin : Point α
  palette : String
  bend : Bool

inductive Command (α : Type) where
  | parse (source : SourceOptions)
  | layout (source : SourceOptions)
  | draw (source : SourceOptions) (drawing : DrawingOptions α)
  | push (source : SourceOptions) (drawing : DrawingOptions α)
  | serve (host : Option String) (port : Option Int)

/-- What a command finds around it. -/
structure Surroundings where
  input : String
  env : Entries String
  disk : Disk

/-- What a command does in the end. -/
inductive Action (α : Type) where
  /-- Prints a value and ends with a code. -/
  | print (value : Json α) (code : Nat)
  /-- Sends a request, waiting so many seconds at most. -/
  | post (url : String) (payload : Json α) (seconds : Nat)
  | serve (host : String) (port : Int)

/-- What comes of a request. -/
inductive Reply (α : Type) where
  | unreachable (reason : String)
  | response (status : Int) (text : String) (value : Except Json.Fault (Json α))

/-- Why a command breaks off. -/
inductive CommandError where
  | settings (error : SettingsError)
  | disk (error : DiskError)
  | drawing (error : DrawingError)
  /-- An answer cannot be read. -/
  | unreadableReply (fault : Json.Fault)
  /-- An answer is no record. -/
  | recordExpected
  /-- What was imported is no list. -/
  | listExpected
  deriving DecidableEq, Repr

/-- What is said when a command breaks off. -/
def CommandError.message : CommandError → String
  | settings e => e.message
  | disk .homeless => SettingsError.homeless.message
  | disk _ => "The file cannot be read"
  | drawing (.source e) => e.message
  | drawing (.layout (.unplaced id)) => "There is no place for " ++ id
  | drawing (.layout .outOfRange) => "A level is out of range"
  | drawing (.layout (.invalid issues)) => Issue.report issues
  | drawing (.color digits) => Color.badDigits digits
  | unreadableReply _ | recordExpected | listExpected => "The reply cannot be understood"

namespace Command

/-- The source that a command reads. -/
def source? {α : Type} : Command α → Option SourceOptions
  | parse source | layout source | draw source _ | push source _ => some source
  | serve .. => none

/-- The files that a command may read. -/
def files {α : Type} (c : Command α) : List String :=
  ".env" :: (c.source?.bind SourceOptions.file).toList

/-- Whether a command reads the standard input. -/
def readsInput {α : Type} (c : Command α) : Bool :=
  match c.source? with
  | some ⟨none, none, _⟩ | some ⟨none, some "", _⟩ => true
  | _ => false

variable {α : Type} [Scalar α]

/-! ## Arguments -/

def sourceFields : Entries Operand :=
  [("--text", .text), ("--file", .text),
    ("--format", .oneOf ((Named.values (β := Diagram.Format)).map Named.name))]

def drawingFields : Entries Operand :=
  [("--start-x", .number), ("--start-y", .number),
    ("--style", .oneOf ((Named.values (β := Palette)).map Named.name)), ("--no-bend", .nothing)]

def serviceFields : Entries Operand := [("--host", .text), ("--port", .integer)]

/-- The options of each command. -/
def commands : Entries (Entries Operand) :=
  [("parse", sourceFields), ("layout", sourceFields),
    ("compile", sourceFields ++ drawingFields), ("push", sourceFields ++ drawingFields),
    ("serve", serviceFields)]

def sourceOf (vs : Entries String) : SourceOptions :=
  ⟨Entries.get? "--text" vs, Entries.get? "--file" vs, Entries.get? "--format" vs⟩

/-- The value of a numeric option. -/
def numberOf (key : String) (vs : Entries String) : α :=
  ((Entries.get? key vs).bind Arguments.number?).getD 100

def drawingOf (vs : Entries String) : DrawingOptions α :=
  { origin := ⟨numberOf "--start-x" vs, numberOf "--start-y" vs⟩
    palette := (Entries.get? "--style" vs).getD "colorful"
    bend := !Entries.has "--no-bend" vs }

/-- The command with a name and values of its options. -/
def ofValues (name : String) (vs : Entries String) : Command α :=
  match name with
  | "parse" => .parse (sourceOf vs)
  | "layout" => .layout (sourceOf vs)
  | "compile" => .draw (sourceOf vs) (drawingOf vs)
  | "push" => .push (sourceOf vs) (drawingOf vs)
  | _ =>
    .serve (Entries.get? "--host" vs) ((Entries.get? "--port" vs).bind Arguments.integer?)

/-- The command that arguments ask for. -/
def ofArguments (args : List String) : Except Refusal (Command α) := do
  let (name, rest, strange) ← Arguments.command commands.keys false args
  let vs ← Arguments.valuesOf α ((Entries.get? name commands).getD []) strange rest
  return ofValues name vs

/-! ## Running -/

/-- The text of the environment file of the working folder, if there is one. -/
def envFile? (s : Surroundings) : Option String :=
  ((s.disk.read (.ofText ".env")).toOption).map fun text =>
    String.ofList (Text.withLineFeeds text.toList)

def settings (s : Surroundings) : Except CommandError (Settings α) :=
  match Settings.load [] s.env (envFile? s) with
  | .ok v => .ok v
  | .error e => .error (.settings e)

/-- The text of a diagram source. -/
def SourceOptions.read (source : SourceOptions) (s : Surroundings) :
    Except CommandError String :=
  match source.text, source.file with
  | some text, _ => .ok text
  | none, none | none, some "" => .ok s.input
  | none, some file =>
    match s.disk.read (.ofSteps file) with
    | .ok text => .ok (String.ofList (Text.withLineFeeds text.toList))
    | .error e => .error (.disk e)

/-- A value that tells of success. -/
def success (members : Entries (Json α)) : Json α := .obj (("status", .str "ok") :: members)

/-- A value that tells of an error. -/
def failure (message : String) : Json α :=
  .obj [("status", .str "error"), ("error", .str message)]

/-- Goes on with the graph of a source, or tells why there is none. -/
def withGraph (source : SourceOptions) (s : Surroundings)
    (go : Graph → Except CommandError (Action α)) : Except CommandError (Action α) := do
  match Diagram.parse (some (← SourceOptions.read source s)) source.format with
  | .ok g => go g
  | .error e => return .print (failure e.message) 1

def spacing (v : Settings α) : Spacing α := ⟨v.nodeSpacing, .scalar v.layerSpacing⟩

/-- The elements of a graph. -/
def drawGraph (ids : IdSupply) (g : Graph) (drawing : DrawingOptions α) (v : Settings α) :
    Except CommandError (List (Element α)) :=
  let style : DrawingStyle α :=
    { DrawingStyle.initial with
      bend := drawing.bend
      palette := .ofName drawing.palette
      spacing := spacing v }
  (Drawing.ofGraph ids g drawing.origin style).1.mapError .drawing

/-- What is sent to a service. -/
def payload (text : String) (format : Option String) (drawing : DrawingOptions α) : Json α :=
  .obj [("text", .str text), ("format", .ofOption .str format),
    ("start_x", .num drawing.origin.x), ("start_y", .num drawing.origin.y),
    ("enable_bend", .bool drawing.bend), ("style_preset", .str drawing.palette)]

/-- A text in place of none and of an empty one. -/
def orText (given : Option String) (default : String) : String :=
  match given with
  | none | some "" => default
  | some s => s

/-- A number in place of none and of zero. -/
def orInt (given : Option Int) (default : Int) : Int :=
  match given with
  | none | some 0 => default
  | some i => i

/-- Does what a command asks for. -/
def run (ids : IdSupply) (s : Surroundings) : Command α → Except CommandError (Action α)
  | .parse source => do
    let _ ← settings (α := α) s
    withGraph source s fun g => return .print (success g.report) 0
  | .layout source => do
    let v ← settings s
    withGraph source s fun g =>
      match Layout.choose g (spacing v) with
      | .ok l => return .print (success [("layout", l.toJson)]) 0
      | .error e => throw (.drawing (.layout e))
  | .draw source drawing => do
    let v ← settings s
    withGraph source s fun g => do
      let elements ← drawGraph ids g drawing v
      return .print (success [("count", .ofNat elements.length),
        ("elements", .arr (Element.toJsons elements))]) 0
  | .push source drawing => do
    let v ← settings (α := α) s
    let text ← SourceOptions.read source s
    return .post (v.address ++ "/import") (payload text source.format drawing) 30
  | .serve host port => do
    let v ← settings (α := α) s
    return .serve (orText host v.host) (orInt port v.port)

/-! ## Replies -/

variable [NumberText α]

/-- How many things a value holds. -/
def count? : Json α → Option Nat
  | .arr items => some items.length
  | .obj members => some members.length
  | .str s => some s.length
  | _ => none

/-- What a service says about a request that it did not grant. A text that is no value speaks for
itself; one that is nested too deep is not read at all. -/
def detail (text : String) : Except Json.Fault (Json α) → Except CommandError String
  | .error .tooDeep => .error (.unreadableReply .tooDeep)
  | .error _ => .ok text
  | .ok (.obj ms) => .ok (((Entries.get? "detail" ms).map Json.shown).getD "Unknown error")
  | .ok _ => .error .recordExpected

/-- What is printed after a reply, and the code. -/
def afterReply : Reply α → Except CommandError (Json α × Nat)
  | .unreachable reason =>
    .ok (failure ("Connection failed: " ++ reason ++ ". Is the canvas backend running?"), 1)
  | .response status text value =>
    if status != 200 then
      (detail text value).map fun d => (failure ("API error: " ++ d), 1)
    else
      match value with
      | .error fault => .error (.unreadableReply fault)
      | .ok (.obj ms) =>
        match count? ((Entries.get? "imported" ms).getD (.arr [])) with
        | some n => .ok (success [("imported", .ofNat n)], 0)
        | none => .error .listExpected
      | .ok _ => .error .recordExpected

end Command

end Whiteboard
