import Whiteboard.Decimal.Integer
import Whiteboard.Entries
import Whiteboard.Text.Plain
import Whiteboard.Text.Scan

/-!
# Arguments

Reading the arguments of a command. An option is named in full or by a beginning that no other
option shares; its value follows it or is joined to it by `=`. What looks like an option is none if
it is a negative number or holds a space.
-/

namespace Whiteboard

/-- What an option takes. -/
inductive Operand where
  | nothing
  | text
  | number
  | integer
  | oneOf (names : List String)
  deriving DecidableEq, Repr

/-- Why no command comes of arguments. -/
inductive Refusal where
  /-- Help was asked for. -/
  | help
  | usage
  deriving DecidableEq, Repr

namespace Arguments

/-- The options that ask for help. -/
def helpNames : List String := ["-h", "--help"]

/-- What an argument is taken for. -/
inductive Reading where
  | operand
  | option (name : String) (joined : Option String)
  | ambiguous
  | unknown
  deriving DecidableEq, Repr

/-- An argument cut at its first `=`. -/
def cutJoined? (arg : String) : Option (String × String) :=
  (Text.cutAt? ['='] arg.toList).map fun (name, v) => (String.ofList name, String.ofList v)

/-- Whether a text is a negative number without exponent; a line feed may follow. -/
def isNegativeNumber (arg : String) : Bool :=
  match arg.toList with
  | '-' :: cs =>
    let line := if cs.getLast? == some '\n' then cs.dropLast else cs
    let (whole, rest) := Text.span Text.isDigit line
    match rest with
    | [] => !whole.isEmpty
    | '.' :: fraction => !fraction.isEmpty && fraction.all Text.isDigit
    | _ => false
  | _ => false

/-- The options that an argument may mean, with the values joined to them. -/
def candidates (names : List String) (arg : String) : List (String × Option String) :=
  if arg.startsWith "--" then
    let (front, joined) :=
      match cutJoined? arg with
      | some (name, v) => (name, some v)
      | none => (arg, none)
    (names.filter (·.startsWith front)).map (·, joined)
  else
    let short := String.ofList (arg.toList.take 2)
    names.filterMap fun name =>
      if name = short then some (name, some (String.ofList (arg.toList.drop 2)))
      else if name.startsWith arg then some (name, none) else none

/-- Reads an argument that begins with a dash. -/
def readDashed (names : List String) (arg : String) : Reading :=
  match candidates names arg with
  | _ :: _ :: _ => .ambiguous
  | [(name, joined)] => .option name joined
  | [] => if isNegativeNumber arg || arg.contains ' ' then .operand else .unknown

/-- Reads an argument among options with the given names. -/
def read (names : List String) (arg : String) : Reading :=
  if !arg.startsWith "-" then .operand
  else if names.contains arg then .option arg none
  else if arg = "-" then .operand
  else
    match cutJoined? arg with
    | some (name, v) =>
      if names.contains name then .option name (some v) else readDashed names arg
    | none => readDashed names arg

/-- What comes of an argument that asks for help. To the long name nothing is joined; the short one
may be repeated, and letters after it are further options, which help comes before. -/
def helpWith (arg : String) : Refusal :=
  if arg.startsWith "--" then if arg.contains '=' then .usage else .help
  else
    match (arg.toList.drop 1).dropWhile (· == 'h') with
    | '=' :: _ | '-' :: _ => .usage
    | _ => .help

/-- An integer: an optional sign and digits, which underscores may group. There is a limit to the
digits. -/
def integer? (text : String) : Option Int :=
  (Text.trimPlain? text.toList).bind fun cs =>
    let (negative, unsigned) := Decimal.takeSign cs
    let digits := (Decimal.ungroup? unsigned).getD unsigned
    if digits.isEmpty || !digits.all Char.isDigit || Decimal.maxIntegerDigits < digits.length then
      none
    else some (if negative then -(Decimal.ofDigits digits : Int) else Decimal.ofDigits digits)

/-- A number without its underscores, each of which stands between two digits. -/
def dropUnderscores? : List Char → Option (List Char)
  | a :: '_' :: b :: rest =>
    if a.isDigit && b.isDigit then (dropUnderscores? (b :: rest)).map (a :: ·) else none
  | '_' :: _ => none
  | [_, '_'] => none
  | a :: rest => (dropUnderscores? rest).map (a :: ·)
  | [] => some []

/-- A number in decimal writing or by its name. -/
def number? {α : Type} [Scalar α] (text : String) : Option α :=
  ((Text.trimPlain? text.toList).bind dropUnderscores?).bind Scalar.ofBareText?

/-- Whether an option takes a value, numbers being those of `α`. -/
def accepts (α : Type) [Scalar α] (operand : Operand) (v : String) : Bool :=
  match operand with
  | .nothing => false
  | .text => true
  | .number => (number? v : Option α).isSome
  | .integer => (integer? v).isSome
  | .oneOf names => names.contains v

/-- Sets an option to a value. -/
def put (α : Type) [Scalar α] (options : Entries Operand) (name v : String)
    (done : Entries String) : Except Refusal (Entries String) :=
  match Entries.get? name options with
  | some operand => if accepts α operand v then .ok (Entries.set name v done) else .error .usage
  | none => .error .usage

/-- Whether an argument can be the value of an option before it. -/
def isValue (names : List String) (arg : String) : Bool := arg != "--" && read names arg = .operand

/-- Reads options with their values, the last value of each. What is not understood is refused at
the end, so that help is still given for what follows. -/
def values (α : Type) [Scalar α] (options : Entries Operand) (done : Entries String)
    (strange : Bool) : List String → Except Refusal (Entries String)
  | [] => if strange then .error .usage else .ok done
  | arg :: rest =>
    let names := helpNames ++ options.keys
    if arg = "--" then .error .usage
    else
      match read names arg with
      | .operand | .unknown => values α options done true rest
      | .ambiguous => .error .usage
      | .option name (some v) =>
        if helpNames.contains name then .error (helpWith arg)
        else
          match put α options name v done with
          | .error e => .error e
          | .ok done => values α options done strange rest
      | .option name none =>
        if helpNames.contains name then .error (helpWith arg)
        else if Entries.get? name options = some .nothing then
          values α options (Entries.set name "" done) strange rest
        else
          match rest with
          | [] => .error .usage
          | v :: rest =>
            if isValue names v then
              match put α options name v done with
              | .error e => .error e
              | .ok done => values α options done strange rest
            else .error .usage

/-- Whether one of the arguments may mean several options. -/
def isAmbiguous (names args : List String) : Bool :=
  (args.takeWhile (· != "--")).any fun arg => read names arg = .ambiguous

/-- Reads the options of a command. What is ambiguous is refused before help is given. -/
def valuesOf (α : Type) [Scalar α] (options : Entries Operand) (strange : Bool)
    (args : List String) : Except Refusal (Entries String) :=
  if isAmbiguous (helpNames ++ options.keys) args then .error .usage
  else values α options [] strange args

/-- The command that arguments begin with, and those that follow it. -/
def command (commands : List String) (strange : Bool) :
    List String → Except Refusal (String × List String × Bool)
  | [] => .error .usage
  | "--" :: _ => .error .usage
  | arg :: rest =>
    match read helpNames arg with
    | .operand => if commands.contains arg then .ok (arg, rest, strange) else .error .usage
    | .option _ _ => .error (helpWith arg)
    | .ambiguous => .error .usage
    | .unknown => command commands true rest

end Arguments

end Whiteboard
