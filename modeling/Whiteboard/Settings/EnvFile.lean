import Whiteboard.Entries
import Whiteboard.Text.Blank
import Whiteboard.Text.Span

/-!
# Environment files

Files of lines `NAME=value`. Values stand bare or in quotes; in quotes they may go over several
lines and hold escapes. A line that is no binding is passed over. Values may refer to other
variables as `${NAME}` or, with a value to fall back on, as `${NAME:-value}`.
-/

namespace Whiteboard.EnvFile

/-- Whether a character ends a line. -/
def isLineEnd (c : Char) : Bool := c == '\n' || c == '\r'

/-- A blank within a line. -/
def isInnerBlank (c : Char) : Bool := Text.isBlank c && !isLineEnd c

def dropInnerBlanks (cs : List Char) : List Char := cs.dropWhile isInnerBlank

/-- What follows the end of a line, if a line ends here. -/
def dropLineEnd? : List Char → Option (List Char)
  | [] => some []
  | '\r' :: '\n' :: rest => some rest
  | '\n' :: rest => some rest
  | '\r' :: rest => some rest
  | _ => none

/-- What follows the rest of a line. -/
def dropLine (cs : List Char) : List Char :=
  let rest := cs.dropWhile fun c => !isLineEnd c
  (dropLineEnd? rest).getD rest

/-- What follows the word `export`, if it stands here before a blank. -/
def dropExport (cs : List Char) : List Char :=
  if "export".toList.isPrefixOf cs then
    let rest := cs.drop 6
    let after := dropInnerBlanks rest
    if after.length < rest.length then after else cs
  else cs

/-- The name of a binding and what follows it. A comment has no name; `error` is what is left where
no name can be read. -/
def name (cs : List Char) : Except (List Char) (Option String × List Char) :=
  match cs with
  | '#' :: _ => .ok (none, cs)
  | '\'' :: rest =>
    match Text.span (· != '\'') rest with
    | (_ :: _, []) => .error cs
    | ([], _) => .error cs
    | (key, _ :: after) => .ok (some (String.ofList key), after)
  | _ =>
    match Text.span (fun c => c != '=' && c != '#' && !Text.isBlank c) cs with
    | ([], _) => .error cs
    | (key, after) => .ok (some (String.ofList key), after)

/-- Splits a quoted value at its end: at the first quote mark without a backslash before it, or else
at the last one. -/
def splitQuoted (mark : Char) : List Char → Option (List Char × List Char)
  | [] => none
  | c :: rest =>
    if c = '\\' then
      match rest with
      | d :: after =>
        if d = mark then
          match splitQuoted mark after with
          | some (value, left) => some (c :: d :: value, left)
          | none => some ([c], after)
        else (splitQuoted mark (d :: after)).map fun (value, left) => (c :: value, left)
      | [] => none
    else if c = mark then some ([], rest)
    else (splitQuoted mark rest).map fun (value, left) => (c :: value, left)

/-- The character that an escape in double quotes stands for. -/
def escaped? : Char → Option Char
  | '\\' => some '\\'
  | '\'' => some '\''
  | '"' => some '"'
  | 'a' => some '\x07'
  | 'b' => some '\x08'
  | 'f' => some '\x0c'
  | 'n' => some '\n'
  | 'r' => some '\r'
  | 't' => some '\t'
  | 'v' => some '\x0b'
  | _ => none

/-- A value with its escapes replaced. -/
def unescape (escaped : Char → Option Char) : List Char → List Char
  | '\\' :: c :: rest =>
    match escaped c with
    | some d => d :: unescape escaped rest
    | none => '\\' :: unescape escaped (c :: rest)
  | c :: rest => c :: unescape escaped rest
  | [] => []

/-- Whether blanks lead to a comment. -/
def beginsComment (cs : List Char) : Bool :=
  match cs with
  | c :: rest => Text.isBlank c && (rest.dropWhile Text.isBlank).head? == some '#'
  | [] => false

/-- A bare value without a comment after it. -/
def dropComment : List Char → List Char
  | [] => []
  | c :: rest => if beginsComment (c :: rest) then [] else c :: dropComment rest

/-- A value and what follows it; `error` is what is left where no value can be read. -/
def value (cs : List Char) : Except (List Char) (List Char × List Char) :=
  match cs with
  | [] => .ok ([], [])
  | '\'' :: rest =>
    match splitQuoted '\'' rest with
    | some (v, left) =>
      .ok (unescape (fun c => if c = '\\' ∨ c = '\'' then some c else none) v, left)
    | none => .error cs
  | '"' :: rest =>
    match splitQuoted '"' rest with
    | some (v, left) => .ok (unescape escaped? v, left)
    | none => .error cs
  | _ =>
    let (line, left) := Text.span (fun c => !isLineEnd c) cs
    .ok (Text.dropEndWhile Text.isBlank (dropComment line), left)

/-- What follows the end of a binding: blanks, perhaps a comment, and the end of the line. -/
def ending (cs : List Char) : Except (List Char) (List Char) :=
  let bare := dropInnerBlanks cs
  let bare :=
    match bare with
    | '#' :: _ => bare.dropWhile fun c => !isLineEnd c
    | _ => bare
  match dropLineEnd? bare with
  | some left => .ok left
  | none => .error bare

/-- A binding and what follows it. A name without `=` has no value. -/
def binding (cs : List Char) :
    Except (List Char) (Option (String × Option (List Char)) × List Char) :=
  match name (dropExport cs) with
  | .error left => .error left
  | .ok (key, after) =>
    let after := dropInnerBlanks after
    let read : Except (List Char) (Option (List Char) × List Char) :=
      match after with
      | '=' :: rest => (value (dropInnerBlanks rest)).map fun (v, left) => (some v, left)
      | _ => .ok (none, after)
    match read with
    | .error left => .error left
    | .ok (v, left) => (ending left).map fun left => (key.map fun k => (k, v), left)

/-- The bindings of a text, at most `fuel` of them. -/
def bindings : Nat → List Char → List (String × Option (List Char))
  | 0, _ => []
  | fuel + 1, cs =>
    match cs.dropWhile Text.isBlank with
    | [] => []
    | bare =>
      match binding bare with
      | .error left => bindings fuel (dropLine left)
      | .ok (some b, left) => b :: bindings fuel left
      | .ok (none, left) => bindings fuel left

/-- What a reference after `${` names, what it falls back on, and what follows it. -/
def reference? (cs : List Char) : Option (String × List Char × List Char) :=
  match Text.span (fun c => c != '\x7d' && c != ':') cs with
  | (key, '\x7d' :: left) => some (String.ofList key, [], left)
  | (key, ':' :: '-' :: rest) =>
    match Text.span (· != '\x7d') rest with
    | (fallback, _ :: left) => some (String.ofList key, fallback, left)
    | _ => none
  | _ => none

/-- A value with its references replaced by what they name in an environment. -/
def substitute (env : Entries (Option String)) : Nat → List Char → List Char
  | 0, _ => []
  | _, [] => []
  | fuel + 1, '$' :: '\x7b' :: rest =>
    match reference? rest with
    | some (key, fallback, left) =>
      let found :=
        match Entries.get? key env with
        | some v => (v.getD "").toList
        | none => fallback
      found ++ substitute env fuel left
    | none => '$' :: substitute env fuel ('\x7b' :: rest)
  | fuel + 1, c :: rest => c :: substitute env fuel rest

/-- Puts bindings into an environment, one after the other. -/
def resolve (env : Entries (Option String)) (done : Entries (Option String)) :
    List (String × Option (List Char)) → Entries (Option String)
  | [] => done
  | (key, v) :: rest =>
    let v := v.map fun cs =>
      String.ofList (substitute (Entries.merge env done) (cs.length + 1) cs)
    resolve env (Entries.set key v done) rest

/-- The variables of a file in an environment, also those without a value. -/
def read (env : Entries String) (text : String) : Entries (Option String) :=
  resolve (env.mapValues some) [] (bindings (text.length + 1) text.toList)

end Whiteboard.EnvFile
