import Whiteboard.Service.Request

/-!
# Endpoints

What a service offers, and the targets by which it is asked for.
-/

namespace Whiteboard

/-- What a request asks for. -/
inductive Endpoint where
  | health
  | board
  | parse
  | importSource
  | sample (format : String)
  | create
  | update (id : String)
  | updateAll
  | delete
  | rotate
  | setRotation
  | reorder
  | group
  | ungroup
  | createArrow
  | moveEnd (id : String)
  | snap
  | select
  | view
  | copy
  | paste
  | undo
  | redo
  | beginBatch
  | endBatch
  | save
  | load
  deriving DecidableEq, Repr

/-- Why a request leads nowhere. -/
inductive Misroute where
  /-- Nothing is offered under the path. -/
  | unknownPath
  /-- Something is offered under the path, but not with the verb. -/
  | unknownVerb
  /-- Something is offered under the path without the separators at its end. -/
  | trailing
  deriving DecidableEq, Repr

namespace Endpoint

/-- What is offered for the elements together, by the name of what is done with them. -/
def ofElements : String → List (Verb × Endpoint)
  | "batch" => [(.post, updateAll)]
  | "rotate" => [(.post, rotate)]
  | "rotation" => [(.post, setRotation)]
  | "reorder" => [(.post, reorder)]
  | "group" => [(.post, group)]
  | "ungroup" => [(.post, ungroup)]
  | _ => []

/-- What is offered under a path, by verb. -/
def ofPath : List String → List (Verb × Endpoint)
  | ["api", "health"] => [(.get, health)]
  | ["api", "canvas"] => [(.get, board)]
  | ["api", "canvas", "save"] => [(.post, save)]
  | ["api", "canvas", "load"] => [(.post, load)]
  | ["api", "parse"] => [(.post, parse)]
  | ["api", "import"] => [(.post, importSource)]
  | ["api", "examples", format] => if format.isEmpty then [] else [(.get, sample format)]
  | ["api", "elements"] => [(.post, create), (.delete, delete)]
  | ["api", "elements", name] =>
    if name.isEmpty then [] else (.patch, update name) :: ofElements name
  | ["api", "arrows"] => [(.post, createArrow)]
  | ["api", "arrows", id, "point"] => if id.isEmpty then [] else [(.patch, moveEnd id)]
  | ["api", "snap"] => [(.post, snap)]
  | ["api", "selection"] => [(.post, select)]
  | ["api", "viewport"] => [(.patch, view)]
  | ["api", "clipboard", "copy"] => [(.post, copy)]
  | ["api", "clipboard", "paste"] => [(.post, paste)]
  | ["api", "undo"] => [(.post, undo)]
  | ["api", "redo"] => [(.post, redo)]
  | ["api", "batch", "begin"] => [(.post, beginBatch)]
  | ["api", "batch", "end"] => [(.post, endBatch)]
  | _ => []

/-- A path without empty names at its end. -/
def withoutTrail (path : List String) : List String :=
  (path.reverse.dropWhile String.isEmpty).reverse

/-- What a verb asks of a path. -/
def find (verb : Verb) (path : List String) : Except Misroute Endpoint :=
  match ofPath path with
  | [] =>
    if path.getLast? = some "" && !(ofPath (withoutTrail path)).isEmpty then .error .trailing
    else .error .unknownPath
  | offered =>
    match offered.lookup verb with
    | some e => .ok e
    | none => .error .unknownVerb

end Endpoint

end Whiteboard
