import Whiteboard.Diagram.Source
import Whiteboard.Diagram.Uml.Message

/-!
# Class, sequence and activity diagrams

One reader for three kinds of diagrams, which may be mixed: classes with their members, relations
between them, participants and actors, messages, and activity steps, each chained to the node
before it. A class block stays open until a line with a closing brace.
-/

namespace Whiteboard.Diagram.Uml

/-- The members that a class shows. -/
def shownMembers : Nat := 3

/-- The label of a class: its name and its first members, each on a line. -/
def classLabel (name : String) (members : List String) : String :=
  let shown := name :: members.take shownMembers
  "\n".intercalate (if shownMembers < members.length then shown ++ ["..."] else shown)

/-- What was read so far: the graph, and the class block that is open with its members. -/
structure Progress where
  graph : Graph := .empty
  openClass : Option (String × List String) := none

namespace Progress

def addNode (p : Progress) (n : Node) : Progress := { p with graph := p.graph.addNode n }

/-- Adds a step of an activity, with an edge from the node before it. -/
def addStep (p : Progress) (n : Node) : Progress :=
  let graph := p.graph.addNode n
  match p.graph.nodes.getLast? with
  | none => { p with graph }
  | some last =>
    if last.id = n.id then { p with graph }
    else { p with graph := graph.addEdge { source := last.id, target := n.id } }

/-- Adds an edge and declares its ends. -/
def addEdge (p : Progress) (e : Edge) : Progress :=
  { p with graph := ((p.graph.ensureNode e.source).ensureNode e.target).addEdge e }

/-- Ends an open class block. -/
def closeClass (p : Progress) : Progress :=
  match p.openClass with
  | none => p
  | some (name, members) =>
    { graph := p.graph.addNode { id := name, label := classLabel name members }, openClass := none }

/-- Reads a line inside the block of a class: a member, or the end of the block with perhaps a
member before the brace. -/
def addMember (p : Progress) (name : String) (members : List String) (line : List Char) :
    Progress :=
  match Text.cutAt? ['}'] line with
  | none => { p with openClass := some (name, members ++ [String.ofList line]) }
  | some (before, _) =>
    let before := Text.trim before
    let members := if before.isEmpty then members else members ++ [String.ofList before]
    closeClass { p with openClass := some (name, members) }

end Progress

/-- A text cut at semicolons and line feeds. -/
def splitMembers : List Char → List (List Char)
  | [] => [[]]
  | c :: rest =>
    if c == ';' || c == '\n' then [] :: splitMembers rest
    else
      match splitMembers rest with
      | [] => [[c]]
      | part :: more => (c :: part) :: more

/-- The members in a class block on one line. -/
def inlineMembers (body : List Char) : List String :=
  ((splitMembers body).map Text.trim).filterMap fun m =>
    if m.isEmpty then none else some (String.ofList m)

/-- A class declaration: its name and, behind an opening brace, the rest of the line. -/
def classHead? (line : List Char) : Option (String × Option (List Char)) :=
  match (Text.dropWord? "class".toList line).bind Text.dropBlanks? with
  | none => none
  | some rest =>
    match Text.span Text.isWord rest with
    | ([], _) => none
    | (name, after) =>
      match Text.trimLeft after with
      | '{' :: body => some (String.ofList name, some (Text.trimLeft body))
      | _ => some (String.ofList name, none)

/-- Reads a class declaration. -/
def readClass (p : Progress) (name : String) : Option (List Char) → Progress
  | none => p.addNode (.bare name)
  | some body =>
    match Text.cutAt? ['}'] body with
    | some (members, _) =>
      p.addNode { id := name, label := classLabel name (inlineMembers members) }
    | none =>
      { p with openClass := some (name, if body.isEmpty then [] else [String.ofList body]) }

/-- The end of a participant line that names an alias in double quotes. -/
def alias? (cs : List Char) : Option (List Char) :=
  match ((Text.dropBlanks? cs).bind (Text.dropWord? ['a', 's'])).bind Text.dropBlanks? with
  | some ('"' :: rest) =>
    match Text.span (· != '"') rest with
    | ([], _) => none
    | (name, ['"']) => some name
    | _ => none
  | _ => none

/-- The name of a participant, after the characters `taken` of it in reverse and one more, and the
alias behind it. The name is as short as it can be. -/
def nameFrom? (taken : List Char) : List Char → Option (List Char × Option (List Char))
  | [] => none
  | c :: rest =>
    let name := c :: taken
    match alias? rest with
    | some label => some (name.reverse, some label)
    | none => if rest.isEmpty then some (name.reverse, none) else nameFrom? name rest

/-- A text without the double quotes around it. -/
def unquote (cs : List Char) : List Char :=
  Text.dropEndWhile (· == '"') (cs.dropWhile (· == '"'))

/-- The node of a participant or an actor. -/
def participant? (line : List Char) : Option Node :=
  let head? :=
    match Text.dropWord? "participant".toList line with
    | some rest => some (NodeShape.rectangle, rest)
    | none => (Text.dropWord? "actor".toList line).map fun rest => (NodeShape.circle, rest)
  match head? with
  | none => none
  | some (shape, rest) =>
    match (Text.dropBlanks? rest).bind (nameFrom? []) with
    | none => none
    | some (name, label?) =>
      let id := String.ofList (unquote (Text.trim name))
      some { id, label := (label?.map String.ofList).getD id, shape }

/-- The text of an activity step between a colon and a semicolon. -/
def stepText? (line : List Char) : Option String :=
  match line with
  | ':' :: rest =>
    match Text.span (fun c => c != ';' && c != ':') rest with
    | ([], _) => none
    | (text, [';']) => some (String.ofList (Text.trim text))
    | _ => none
  | _ => none

/-- The condition of a line `if (condition) then`. -/
def condition? (line : List Char) : Option String :=
  match (Text.dropWord? "if".toList line).map Text.trimLeft with
  | some ('(' :: rest) =>
    match Text.span (· != ')') rest with
    | ([], _) => none
    | (text, ')' :: after) =>
      if Text.trimLeft after = "then".toList then some (String.ofList (Text.trim text)) else none
    | _ => none
  | _ => none

/-- The step that a line of an activity adds as the next of `count` nodes. -/
def step? (count : Nat) (line : List Char) : Option Node :=
  if line = "start".toList ∨ line = "(*)".toList then
    some { id := "start", label := "Start", shape := .circle }
  else if line = "stop".toList ∨ line = "end".toList then
    some { id := "end", label := "End", shape := .circle }
  else
    match stepText? line with
    | some label => some { id := s!"activity_{count}", label, shape := .rounded }
    | none =>
      (condition? line).map fun label =>
        { id := s!"decision_{count}", label, shape := .diamond, isDecision := true }

/-- Reads a line outside of class blocks; what is not understood is passed over. -/
def readStatement (p : Progress) (line : List Char) : Progress :=
  match classHead? line with
  | some (name, body?) => readClass p name body?
  | none =>
    match participant? line with
    | some node => p.addNode node
    | none =>
      match step? p.graph.nodes.length line with
      | some node => p.addStep node
      | none =>
        match (relation? line).or (message? line) with
        | some edge => p.addEdge edge
        | none => p

/-- Reads a line without blanks around it. -/
def readLine (p : Progress) (line : List Char) : Progress :=
  match p.openClass with
  | some (name, members) => p.addMember name members line
  | none => readStatement p line

/-- Whether a line is neither blank, a comment nor a frame of the diagram. -/
def isStatement (line : List Char) : Bool :=
  !line.isEmpty && !"'".toList.isPrefixOf line && !"//".toList.isPrefixOf line &&
    !"@startuml".toList.isPrefixOf line && !"@enduml".toList.isPrefixOf line

/-- Reads all lines, and ends a class block that is still open. -/
def readLines (lines : List (List Char)) : Graph :=
  (((lines.map Text.trim).filter isStatement).foldl readLine {}).closeClass.graph

/-- Reads a class, sequence or activity diagram. -/
def parse (source : Option String) : Except SourceError Graph :=
  (sourceLines source).bind fun lines => finish .uml (readLines lines)

end Whiteboard.Diagram.Uml
