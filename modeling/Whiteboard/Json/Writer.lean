import Whiteboard.Json
import Whiteboard.Decimal.Shortest
import Whiteboard.Scalar.Double
import Whiteboard.Text.Quoted

/-!
# Writing JSON

Values as JSON text on one line or indented, and values as they are shown inside a message.
-/

namespace Whiteboard

/-- The writing of the numbers of a scalar type. -/
class NumberText (α : Type) where
  /-- A number in a JSON text. -/
  literal : α → List Char
  /-- A number in a message. -/
  shown : α → List Char

/-- The shortest writing of a double that reads back, or else one of three names. -/
def doubleText (undefined infinite : String) (x : Float) : List Char :=
  match Binary64.ofFloat? x with
  | some b => (Decimal.shortest b).text
  | none =>
    if x.isNaN then undefined.toList
    else if x < 0 then '-' :: infinite.toList else infinite.toList

instance : NumberText Double where
  literal x := doubleText "NaN" "Infinity" x.value
  shown x := doubleText "nan" "inf" x.value

namespace Json

variable {α : Type} [NumberText α]

/-- A character inside the quotes of a JSON text. -/
def escapeChar (c : Char) : List Char :=
  match c with
  | '"' => ['\\', '"']
  | '\\' => ['\\', '\\']
  | '\n' => ['\\', 'n']
  | '\r' => ['\\', 'r']
  | '\t' => ['\\', 't']
  | '\x08' => ['\\', 'b']
  | '\x0c' => ['\\', 'f']
  | _ =>
    let n := c.toNat
    if 32 ≤ n ∧ n < 127 then [c]
    else if n < 0x10000 then '\\' :: 'u' :: Text.hex 4 n
    else
      let m := n - 0x10000
      '\\' :: 'u' :: Text.hex 4 (0xD800 + m / 0x400) ++
        '\\' :: 'u' :: Text.hex 4 (0xDC00 + m % 0x400)

/-- A text as a JSON string, in ASCII. -/
def writeString (s : String) : List Char := '"' :: s.toList.flatMap escapeChar ++ ['"']

def writeInt (i : Int) : List Char :=
  if i < 0 then '-' :: Nat.toDigits 10 i.natAbs else Nat.toDigits 10 i.natAbs

/-- How the parts of arrays and objects are set apart. -/
structure Layout where
  /-- What stands after an opening bracket and before the items, at a depth. -/
  opening : Nat → List Char
  /-- What stands between items, at a depth. -/
  between : Nat → List Char
  /-- What stands before a closing bracket, at a depth. -/
  closing : Nat → List Char

/-- Everything on one line. -/
def Layout.line : Layout := ⟨fun _ => [], fun _ => [',', ' '], fun _ => []⟩

/-- One item a line, two columns further in than the brackets. -/
def Layout.indented : Layout where
  opening depth := '\n' :: List.replicate (2 * (depth + 1)) ' '
  between depth := ',' :: '\n' :: List.replicate (2 * (depth + 1)) ' '
  closing depth := '\n' :: List.replicate (2 * depth) ' '

mutual

/-- A value at a depth of nesting. -/
def writeAt (layout : Layout) (depth : Nat) : Json α → List Char
  | null => "null".toList
  | bool true => "true".toList
  | bool false => "false".toList
  | int i => writeInt i
  | num x => NumberText.literal x
  | str s => writeString s
  | arr [] => ['[', ']']
  | arr (v :: items) =>
    '[' :: layout.opening depth ++ writeAt layout (depth + 1) v ++
      writeItems layout depth items ++ layout.closing depth ++ [']']
  | obj [] => ['{', '}']
  | obj ((k, v) :: members) =>
    '{' :: layout.opening depth ++ writeString k ++ [':', ' '] ++ writeAt layout (depth + 1) v ++
      writeMembers layout depth members ++ layout.closing depth ++ ['}']

/-- The items after the first one. -/
def writeItems (layout : Layout) (depth : Nat) : List (Json α) → List Char
  | [] => []
  | v :: rest =>
    layout.between depth ++ writeAt layout (depth + 1) v ++ writeItems layout depth rest

/-- The members after the first one. -/
def writeMembers (layout : Layout) (depth : Nat) : List (String × Json α) → List Char
  | [] => []
  | (k, v) :: rest =>
    layout.between depth ++ writeString k ++ [':', ' '] ++ writeAt layout (depth + 1) v ++
      writeMembers layout depth rest

end

/-- A value on one line. -/
def write (v : Json α) : List Char := writeAt .line 0 v

/-- A value over several lines. -/
def writeIndented (v : Json α) : List Char := writeAt .indented 0 v

mutual

/-- A value inside a message; texts are quoted. -/
def inText : Json α → List Char
  | null => "None".toList
  | bool true => "True".toList
  | bool false => "False".toList
  | int i => writeInt i
  | num x => NumberText.shown x
  | str s => (Text.quote s).toList
  | arr items => '[' :: inTextItems true items ++ [']']
  | obj members => '{' :: inTextMembers true members ++ ['}']

def inTextItems (first : Bool) : List (Json α) → List Char
  | [] => []
  | v :: rest => (if first then [] else [',', ' ']) ++ inText v ++ inTextItems false rest

def inTextMembers (first : Bool) : List (String × Json α) → List Char
  | [] => []
  | (k, v) :: rest =>
    (if first then [] else [',', ' ']) ++ (Text.quote k).toList ++ [':', ' '] ++ inText v ++
      inTextMembers false rest

end

/-- A value as a whole message, or as a part of one that is no text inside it: without quotes. -/
def shown : Json α → String
  | str s => s
  | v => String.ofList (inText v)

end Json

end Whiteboard
