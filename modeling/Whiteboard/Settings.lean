import Whiteboard.Disk
import Whiteboard.Json.Reader
import Whiteboard.Schema
import Whiteboard.Settings.EnvFile
import Whiteboard.Text.Upper

/-!
# Settings

What can be set from outside. A value is given directly, or by a variable of the environment whose
name has the prefix `CANVAS_`, in any case, or by such a name in an environment file; the first of
these that is there counts.
-/

namespace Whiteboard

structure Settings (α : Type) where
  logLevel : String
  logJson : Bool
  host : String
  port : Int
  origins : List String
  storage : DiskPath
  historyLimit : Int
  snapThreshold : α
  guideDistance : α
  nodeSpacing : α
  layerSpacing : α

/-- Where variables come from. -/
inductive VariableSource where
  | environment
  | file
  deriving DecidableEq, Repr

/-- The name of a source in messages. -/
def VariableSource.name : VariableSource → String
  | environment => "EnvSettingsSource"
  | file => "DotEnvSettingsSource"

/-- Why settings are refused. -/
inductive SettingsError where
  | invalid (issues : List Issue)
  /-- A list in a variable is no JSON. -/
  | malformed (field : String) (source : VariableSource)
  /-- A list in a variable is nested too deep. -/
  | tooDeep
  /-- The home folder of a path is unknown. -/
  | homeless
  deriving DecidableEq, Repr

/-- What is said when settings are refused. -/
def SettingsError.message : SettingsError → String
  | invalid issues => Issue.report issues
  | malformed field source =>
    s!"error parsing value for field \"{field}\" from source \"{source.name}\""
  | tooDeep => "A list is nested too deep"
  | homeless => "The home folder is unknown"

namespace Settings

variable {α : Type} [Scalar α]

/-- The names of the settings. -/
def fields : List String :=
  ["log_level", "log_json", "api_host", "api_port", "cors_origins", "storage_path",
    "history_limit", "snap_threshold", "guide_snap_distance", "node_spacing", "layer_spacing"]

/-- Who may ask if nothing else is said. -/
def defaultOrigins : List String :=
  ["http://localhost:5173", "http://localhost:3000", "http://127.0.0.1:5173"]

/-- Where boards are kept if nothing else is said. -/
def defaultStorage : DiskPath := .ofText "~/.canvas/state.json"

/-- A path, written as a text. -/
def path (v : Json α) : Checked DiskPath :=
  match v with
  | .str s => .ok (.ofText s)
  | _ => .fail .pathExpected

/-- An integer that is not below a bound. -/
def integerAtLeast (low : Int) (v : Json α) : Checked Int :=
  (Schema.integer v).andThen fun i => if i < low then .fail .belowLeast else .ok i

/-- Reads settings; the path of the storage is as it was given. -/
def ofMembers (ms : Entries (Json α)) : Checked (Settings α) :=
  Settings.mk <$> Schema.withDefault "log_level" "INFO" (fun v => Text.upper <$> Schema.text v) ms
    <*> Schema.withDefault "log_json" false Schema.truth ms
    <*> Schema.withDefault "api_host" "127.0.0.1" Schema.text ms
    <*> Schema.withDefault "api_port" 8765 Schema.integer ms
    <*> Schema.withDefault "cors_origins" defaultOrigins (Schema.listOf Schema.text) ms
    <*> Schema.withDefault "storage_path" defaultStorage path ms
    <*> Schema.withDefault "history_limit" 50 (integerAtLeast 1) ms
    <*> Schema.withDefault "snap_threshold" 35 (Schema.above 0) ms
    <*> Schema.withDefault "guide_snap_distance" 10 (Schema.atLeast 0) ms
    <*> Schema.withDefault "node_spacing" 160 (Schema.above 0) ms
    <*> Schema.withDefault "layer_spacing" 220 (Schema.above 0) ms

def toJson (s : Settings α) : Json α :=
  .obj [("log_level", .str s.logLevel), ("log_json", .bool s.logJson), ("api_host", .str s.host),
    ("api_port", .int s.port), ("cors_origins", .ofStrings s.origins),
    ("storage_path", .str s.storage.text), ("history_limit", .int s.historyLimit),
    ("snap_threshold", .num s.snapThreshold), ("guide_snap_distance", .num s.guideDistance),
    ("node_spacing", .num s.nodeSpacing), ("layer_spacing", .num s.layerSpacing)]

/-- The name of a variable without regard to case. -/
def fold (name : String) : String := String.ofList (name.toList.map Char.toLower)

/-- The variables that set something, by the names of the settings. Of names that differ in case
only, the last one counts, and one without a value sets nothing. -/
def settingsOf (env : Entries (Option String)) : Entries String :=
  let folded := Entries.ofList (env.map fun (name, v) => (fold name, v))
  fields.filterMap fun field =>
    (Entries.get? ("canvas_" ++ field) folded).join.map fun v => (field, v)

/-- The value that the text of a variable means: itself, but for lists JSON. Null means none. -/
def valueOf? (source : VariableSource) (field text : String) :
    Except SettingsError (Option (Json α)) :=
  if field = "cors_origins" then
    match Json.read text.toList with
    | .ok .null => .ok none
    | .ok v => .ok (some v)
    | .error .tooDeep => .error .tooDeep
    | .error _ => .error (.malformed field source)
  else .ok (some (.str text))

/-- The values of all variables. -/
def valuesOf (source : VariableSource) : Entries String → Except SettingsError (Entries (Json α))
  | [] => .ok []
  | (field, text) :: rest => do
    let v ← valueOf? source field text
    let vs ← valuesOf source rest
    return (v.map fun v => (field, v)).toList ++ vs

/-- The home folder in an environment; separators at its end do not count. -/
def homeOf (env : Entries String) : DiskPath :=
  let cs := Text.dropEndWhile (· == '/') ((Entries.get? "HOME" env).getD "").toList
  .ofText (if cs.isEmpty then "/" else String.ofList cs)

/-- Whether the storage is to lie in a home folder that is not known. -/
def isHomeless (home : DiskPath) (storage : Option (Json α)) : Bool :=
  match storage with
  | none => (defaultStorage.expandHome home).isNone
  | some (.str s) => ((DiskPath.ofText s).expandHome home).isNone
  | some _ => false

/-- The settings from values given directly, an environment and the text of an environment file. -/
def load (given : Entries (Json α)) (env : Entries String) (file : Option String) :
    Except SettingsError (Settings α) := do
  let fromEnv ← valuesOf .environment (settingsOf (env.mapValues some))
  let fromFile ← valuesOf .file (settingsOf (EnvFile.read env (file.getD "")))
  let members := Entries.merge (Entries.merge fromFile fromEnv) given
  let home := homeOf env
  if isHomeless home (Entries.get? "storage_path" members) then throw .homeless
  match ofMembers members with
  | .bad issues => throw (.invalid issues)
  | .ok s => return { s with storage := (s.storage.expandHome home).getD s.storage }

/-- The address of the service. -/
def address (s : Settings α) : String := s!"http://{s.host}:{s.port}/api"

end Settings

end Whiteboard
