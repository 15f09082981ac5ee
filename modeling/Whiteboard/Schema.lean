import Whiteboard.Json
import Whiteboard.Named
import Whiteboard.Decimal.Integer

/-!
# Checked reading of JSON values

A reader turns a JSON value into a typed one or tells every issue it found, each with the path to
the place in the value. A record collects the issues of all its fields, in the order of the fields.
-/

namespace Whiteboard

/-- What is wrong with a value. -/
inductive Cause where
  | missing
  | textExpected
  | numberExpected
  | numberText
  | integerExpected
  | integerText
  | integerTooLong
  | fraction
  | infinite
  | truthExpected
  | truthText
  | listExpected
  | mapExpected
  | recordExpected
  | requestExpected
  | tagMissing
  | tagUnknown
  | unknownName
  | unknownWord
  | tooDeep
  | notAbove
  | belowLeast
  | aboveMost
  | malformed
  | pathExpected
  deriving DecidableEq, Repr

/-- The name of a cause in reports. -/
def Cause.code : Cause → String
  | missing => "missing"
  | textExpected => "string_type"
  | numberExpected => "float_type"
  | numberText => "float_parsing"
  | integerExpected => "int_type"
  | integerText => "int_parsing"
  | integerTooLong => "int_parsing_size"
  | fraction => "int_from_float"
  | infinite => "finite_number"
  | truthExpected => "bool_type"
  | truthText => "bool_parsing"
  | listExpected => "list_type"
  | mapExpected => "dict_type"
  | recordExpected => "model_type"
  | requestExpected => "model_attributes_type"
  | tagMissing => "union_tag_not_found"
  | tagUnknown => "union_tag_invalid"
  | unknownName => "enum"
  | unknownWord => "literal_error"
  | tooDeep => "recursion_depth_exceeded"
  | notAbove => "greater_than"
  | belowLeast => "greater_than_equal"
  | aboveMost => "less_than_equal"
  | malformed => "json_invalid"
  | pathExpected => "path_type"

/-- A cause and the path to the value that has it. -/
structure Issue where
  path : List String
  cause : Cause
  deriving DecidableEq, Repr

def Issue.text (i : Issue) : String := ".".intercalate i.path ++ ":" ++ i.cause.code

/-- The report of several issues. -/
def Issue.report (issues : List Issue) : String := "; ".intercalate (issues.map Issue.text)

/-- A value that passed all checks, or the issues found. -/
inductive Checked (β : Type) where
  | ok (value : β)
  | bad (issues : List Issue)
  deriving Repr

namespace Checked

variable {β γ : Type}

def fail (cause : Cause) : Checked β := bad [⟨[], cause⟩]

def map (f : β → γ) : Checked β → Checked γ
  | ok x => ok (f x)
  | bad issues => bad issues

/-- Applies a checked function; the issues of both sides are kept. -/
def apply : Checked (β → γ) → Checked β → Checked γ
  | ok f, ok x => ok (f x)
  | ok _, bad issues => bad issues
  | bad issues, ok _ => bad issues
  | bad left, bad right => bad (left ++ right)

instance : Functor Checked := ⟨Checked.map, fun x => Checked.map fun _ => x⟩

instance : Seq Checked := ⟨fun f x => apply f (x ())⟩

/-- A check that looks at a value only once it has its type. -/
def andThen (x : Checked β) (f : β → Checked γ) : Checked γ :=
  match x with
  | ok v => f v
  | bad issues => bad issues

/-- Issues one step further down a path. -/
def under (segment : String) : Checked β → Checked β
  | ok x => ok x
  | bad issues => bad (issues.map fun i => ⟨segment :: i.path, i.cause⟩)

def toExcept : Checked β → Except (List Issue) β
  | ok x => .ok x
  | bad issues => .error issues

def isOk : Checked β → Bool
  | ok _ => true
  | bad _ => false

/-- All values of a list of checks, each under its position from `start` on. -/
def collect (start : Nat) : List (Checked β) → Checked (List β)
  | [] => ok []
  | x :: rest => List.cons <$> x.under (toString start) <*> collect (start + 1) rest

/-- All values of a map of checks, each under its key. -/
def collectEntries : List (String × Checked β) → Checked (Entries β)
  | [] => ok []
  | (k, x) :: rest => (fun v es => (k, v) :: es) <$> x.under k <*> collectEntries rest

end Checked

namespace Schema

variable {α β : Type} [Scalar α]

def text : Json α → Checked String
  | .str s => .ok s
  | _ => .fail .textExpected

/-- A number, from a number, a truth value or a text. -/
def number : Json α → Checked α
  | .num x => .ok x
  | .int i => if Scalar.holdsInt α i then .ok (Scalar.ofInt i) else .fail .numberExpected
  | .bool b => .ok (if b then 1 else 0)
  | .str s =>
    match Scalar.ofText? s with
    | some x => .ok x
    | none => .fail .numberText
  | _ => .fail .numberExpected

/-- An integer, from a number without a fraction, a truth value or a text. -/
def integer : Json α → Checked Int
  | .int i => .ok i
  | .bool b => .ok (if b then 1 else 0)
  | .num x =>
    if !Scalar.isFinite x then .fail .infinite
    else
      match Scalar.toInt? x with
      | none => .fail .fraction
      | some i => if i.natAbs < Nat.pow 2 63 then .ok i else .fail .integerTooLong
  | .str s =>
    match Decimal.readInteger s with
    | .ok i => .ok i
    | .error .malformed => .fail .integerText
    | .error .tooLong => .fail .integerTooLong
  | _ => .fail .integerExpected

/-- The words for true and for false. -/
def truthWords : List (String × Bool) :=
  [("0", false), ("f", false), ("n", false), ("no", false), ("off", false), ("false", false),
    ("1", true), ("t", true), ("y", true), ("yes", true), ("on", true), ("true", true)]

/-- Whether an integer has a place in 64 bits. -/
def isShort (i : Int) : Bool := -(Nat.pow 2 63 : Nat) ≤ i && i < (Nat.pow 2 63 : Nat)

/-- A truth value, from zero or one. What is no integer of 64 bits is not taken for a try at one. -/
def truthOfInt (i : Int) : Checked Bool :=
  if i = 0 then .ok false else if i = 1 then .ok true
  else .fail (if isShort i then .truthText else .truthExpected)

/-- A truth value, from zero or one or from a word in any case. -/
def truth : Json α → Checked Bool
  | .bool b => .ok b
  | .int i => truthOfInt i
  | .num x =>
    match Scalar.toInt? x with
    | some i => if i.natAbs < Nat.pow 2 63 then truthOfInt i else .fail .truthExpected
    | none => .fail .truthExpected
  | .str s =>
    match truthWords.lookup (String.ofList (s.toList.map Char.toLower)) with
    | some b => .ok b
    | none => .fail .truthText
  | _ => .fail .truthExpected

/-- A value that may also be null. -/
def optional (read : Json α → Checked β) : Json α → Checked (Option β)
  | .null => .ok none
  | v => some <$> read v

/-- A name of an enumeration, or the given cause. -/
def named [Named β] (cause : Cause) : Json α → Checked β
  | .str s =>
    match Named.ofName? s with
    | some v => .ok v
    | none => .fail cause
  | _ => .fail cause

def listOf (read : Json α → Checked β) : Json α → Checked (List β)
  | .arr items => .collect 0 (items.map read)
  | _ => .fail .listExpected

/-- The members of an object, or the given cause. -/
def members (cause : Cause) : Json α → Checked (Entries (Json α))
  | .obj ms => .ok ms
  | _ => .fail cause

/-- An object each member of which is read alike. -/
def mapOf (read : Json α → Checked β) : Json α → Checked (Entries β)
  | .obj ms => .collectEntries (ms.map fun (k, v) => (k, read v))
  | _ => .fail .mapExpected

/-- A member that has to be there. -/
def required (key : String) (read : Json α → Checked β) (ms : Entries (Json α)) : Checked β :=
  match Entries.get? key ms with
  | some v => (read v).under key
  | none => .bad [⟨[key], .missing⟩]

/-- A member that may be left out. -/
def withDefault (key : String) (default : β) (read : Json α → Checked β)
    (ms : Entries (Json α)) : Checked β :=
  match Entries.get? key ms with
  | some v => (read v).under key
  | none => .ok default

/-- A number not below a bound. What is no number is below it, as far as checks go. -/
def notBelow (low x : α) : Checked α := if low ≤ x then .ok x else .fail .belowLeast

/-- A number that is not below a bound. -/
def atLeast (low : α) (v : Json α) : Checked α := (number v).andThen (notBelow low)

/-- A number above a bound. -/
def above (low : α) (v : Json α) : Checked α :=
  (number v).andThen fun x => if low < x then .ok x else .fail .notAbove

/-- A number in a closed interval. -/
def between (low high : α) (v : Json α) : Checked α :=
  (number v).andThen fun x => if x ≤ high then notBelow low x else .fail .aboveMost

end Schema

end Whiteboard
