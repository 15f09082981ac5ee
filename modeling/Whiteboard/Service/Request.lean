import Whiteboard.Json.Reader
import Whiteboard.Text.Percent
import Whiteboard.Text.Span
import Whiteboard.Text.Upper

/-!
# Requests

What a service is asked: a verb, a target and perhaps a body. A target is a path of names and a
query of named values, both written with percent signs.
-/

namespace Whiteboard

/-- What is to be done with a target. -/
inductive Verb where
  | get
  | post
  | patch
  | delete
  /-- A verb that no target understands. -/
  | other
  deriving DecidableEq, Repr

/-- The verb of a name in any case. -/
def Verb.ofName (name : String) : Verb :=
  match Text.upper name with
  | "GET" => get
  | "POST" => post
  | "PATCH" => patch
  | "DELETE" => delete
  | _ => other

/-- The names of a path, and the named values of a query in their order. -/
structure Target where
  path : List String
  query : List (String × String)
  deriving DecidableEq, Repr

namespace Target

/-- The names of a path. -/
def names (cs : List Char) : List String :=
  let path := Text.decodePercent cs
  let below :=
    match path with
    | '/' :: rest => rest
    | cs => cs
  (below.splitOn '/').map String.ofList

/-- A name or a value of a query; a plus sign is a blank. -/
def queryText (cs : List Char) : String :=
  String.ofList (Text.decodePercent (cs.map fun c => if c == '+' then ' ' else c))

/-- The named values of a query; a name without a value has an empty one. -/
def pairs (cs : List Char) : List (String × String) :=
  ((cs.splitOn '&').filter fun part => !part.isEmpty).map fun part =>
    let (name, rest) := Text.span (· != '=') part
    (queryText name, queryText (rest.drop 1))

/-- The target that a text writes. What follows a number sign is no part of it. -/
def ofText (text : String) : Target :=
  let (path, query) := Text.span (· != '?') (text.toList.takeWhile (· != '#'))
  ⟨names path, pairs (query.drop 1)⟩

/-- The last value of a name in the query. -/
def value? (t : Target) (name : String) : Option String :=
  (t.query.reverse.find? (·.1 == name)).map (·.2)

/-- All values of a name in the query. -/
def values (t : Target) (name : String) : List String :=
  (t.query.filter (·.1 == name)).map (·.2)

end Target

/-- What comes with a request. -/
inductive Payload (α : Type) where
  | none
  | value (value : Json α)
  | text (text : String)

namespace Payload

variable {α : Type} [Scalar α]

/-- The characters of a text; a byte order mark at its front is none of them. -/
def chars (text : String) : List Char :=
  match text.toList with
  | '\uFEFF' :: rest => rest
  | cs => cs

/-- The value that comes with a request, if one does; or the fault of a text that is no JSON.
Null counts as no value, and so does an empty text. -/
def toJson? : Payload α → Except Json.Fault (Option (Json α))
  | none | text "" | value .null => .ok .none
  | value v => .ok (some v)
  | text s =>
    match Json.read (chars s) with
    | .error fault => .error fault
    | .ok .null => .ok .none
    | .ok v => .ok (some v)

end Payload

structure Request (α : Type) where
  verb : Verb
  target : Target
  payload : Payload α

end Whiteboard
