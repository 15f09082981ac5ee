import Whiteboard.Text.Hex
import Whiteboard.Scalar
import Whiteboard.Text.Plain
import Whiteboard.Text.Span
import Whiteboard.Text.Quoted
import Whiteboard.Graph

/-!
# Colors

The colors of nodes, picked from a palette by a hash of their id, those of edges, and the color of
text that is readable on a background.
-/

namespace Whiteboard

/-- The sets of colors to draw with. -/
inductive Palette where
  | colorful
  | serious
  deriving DecidableEq, Repr

namespace Palette

instance : Named Palette where
  title := "Palette"
  values := [.colorful, .serious]
  name
    | .colorful => "colorful"
    | .serious => "serious"

/-- The palette with a name; any other name means the first one. -/
def ofName (name : String) : Palette := (Named.ofName? name).getD .colorful

/-- The colors of nodes. -/
def fills : Palette → List String
  | colorful => ["#60A5FA", "#34D399", "#A78BFA", "#F59E0B", "#FB7185", "#F97316", "#06B6D4",
      "#F472B6"]
  | serious => ["#2563EB", "#0F766E", "#6D28D9", "#92400E", "#7C2D12", "#334155", "#0F172A",
      "#374151"]

/-- The colors of their borders. -/
def borders : Palette → List String
  | colorful => ["#1E40AF", "#065F46", "#4C1D95", "#92400E", "#981B1B", "#C2410C", "#075985",
      "#BE185D"]
  | serious => ["#0B3B8C", "#064E40", "#3B1F6B", "#6B2F0A", "#5C1F1A", "#1F2937", "#071833",
      "#111827"]

end Palette

namespace Color

/-- One step of the hash, on 32 bits. -/
def hashStep (h : Nat) (c : Char) : Nat := (h ^^^ c.toNat) * 16777619 % Nat.pow 2 32

/-- The hash of a text, by the scheme of Fowler, Noll and Vo. -/
def hash (s : String) : Nat := s.toList.foldl hashStep 2166136261

/-- The hash reduced by a modulus, with the sign of the modulus; there is none for zero. -/
def hashIndex? (s : String) (modulus : Int) : Option Int :=
  if modulus = 0 then none else some (Int.fmod (hash s) modulus)

/-- The color of a list that an id picks; an empty id picks the first one. -/
def pick (colors : List String) (id : String) : String :=
  (colors[if id.isEmpty then 0 else hash id % colors.length]?).getD ""

def ofNode (id : String) (palette : Palette) : String := pick palette.fills id

def ofBorder (id : String) (palette : Palette) : String := pick palette.borders id

def ofEdge : EdgeKind → String
  | .arrow => "#334155"
  | .dotted => "#6B7280"
  | .thick => "#0F172A"

/-! ## Reading colors -/

/-- The number that digits write after those read before; single underscores may stand between
digits. -/
def hexDigits? (n : Nat) : List Char → Option Nat
  | [] => some n
  | '_' :: c :: rest => (Text.hexValue? c).bind fun d => hexDigits? (16 * n + d) rest
  | c :: rest => (Text.hexValue? c).bind fun d => hexDigits? (16 * n + d) rest

/-- Digits without the mark of the base, which an underscore may follow. -/
def dropBase : List Char → List Char
  | '0' :: 'x' :: '_' :: rest => rest
  | '0' :: 'X' :: '_' :: rest => rest
  | '0' :: 'x' :: rest => rest
  | '0' :: 'X' :: rest => rest
  | cs => cs

/-- A number of at least one digit. -/
def unsigned? (cs : List Char) : Option Nat :=
  match dropBase cs with
  | [] => none
  | '_' :: _ => none
  | digits => hexDigits? 0 digits

/-- A hexadecimal integer, perhaps with a sign and blanks around. -/
def hexInt? (cs : List Char) : Option Int :=
  (Text.trimPlain? cs).bind fun cs =>
    match cs with
    | '-' :: rest => (unsigned? rest).map fun n => -(n : Int)
    | '+' :: rest => (unsigned? rest).map Int.ofNat
    | rest => (unsigned? rest).map Int.ofNat

/-- The digits of a color: at most six, those of a short one twice each. -/
def digits (color : String) : List Char :=
  let bare := color.toList.dropWhile (· == '#')
  (if bare.length = 3 then bare.flatMap fun c => [c, c] else bare).take 6

/-- A part of a color, as the eight bits above the given ones. -/
def channel (n : Int) (shift : Nat) : Nat := (Int.fdiv n (Nat.pow 2 shift) % 256).toNat

/-- The share of a channel. -/
def share {α : Type} [Scalar α] (n : Int) (shift : Nat) : α := Scalar.ofNat (channel n shift) / 255

/-- How bright a color appears, from 0 to 1. -/
def luminance {α : Type} [Scalar α] (n : Int) : α :=
  0.2126 * share n 16 + 0.7152 * share n 8 + 0.0722 * share n 0

/-- The color of readable text on a background, measured in `α`, or else the digits that are
none. -/
def readable (α : Type) [Scalar α] (background : String) : Except String String :=
  let cs := digits background
  match hexInt? cs with
  | none => .error (String.ofList cs)
  | some n => .ok (if luminance n > (0.6 : α) then "#0f172a" else "#ffffff")

/-- What is said about digits that are none. -/
def badDigits (digits : String) : String :=
  "invalid literal for int() with base 16: " ++ Text.quote digits

end Color

end Whiteboard
