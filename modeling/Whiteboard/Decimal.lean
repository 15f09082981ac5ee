import Whiteboard.Scalar
import Whiteboard.Text.Blank

/-!
# Decimals

Numbers in decimal writing: a sign, the digits read as a natural number and a power of ten. The
readers here take ASCII digits only.
-/

namespace Whiteboard

/-- The number `± digits · 10 ^ exponent`. -/
structure Decimal where
  negative : Bool
  digits : Nat
  exponent : Int
  deriving DecidableEq, Repr

namespace Decimal

/-- The number of a scalar type nearest to a decimal. -/
def toScalar {α : Type} [Scalar α] (d : Decimal) : α :=
  let magnitude : α := OfScientific.ofScientific d.digits (d.exponent < 0) d.exponent.natAbs
  if d.negative then -magnitude else magnitude

/-- The number that digits write, most significant first. -/
def ofDigits (digits : List Char) : Nat :=
  digits.foldl (fun n c => 10 * n + (c.toNat - '0'.toNat)) 0

/-- A sign in front of digits. -/
def takeSign : List Char → Bool × List Char
  | '-' :: rest => (true, rest)
  | '+' :: rest => (false, rest)
  | rest => (false, rest)

/-- An exponent part at the front of a text: a marker, an optional sign and digits. -/
def takeExponent? : List Char → Option (Int × List Char)
  | marker :: rest =>
    if marker == 'e' || marker == 'E' then
      let (negative, unsigned) := takeSign rest
      let (digits, after) := Text.span Char.isDigit unsigned
      if digits.isEmpty then none
      else some (if negative then -(ofDigits digits : Int) else ofDigits digits, after)
    else none
  | [] => none

/-- The decimal with the given digits before and after the point. -/
def ofParts (negative : Bool) (whole fraction : List Char) (exponent : Int) : Decimal :=
  ⟨negative, ofDigits (whole ++ fraction), exponent - fraction.length⟩

/-- A whole text as a decimal: digits with at most one point, at least one digit, an optional sign
in front and an optional exponent behind. -/
def ofText? (cs : List Char) : Option Decimal :=
  let (negative, unsigned) := takeSign cs
  let (whole, afterWhole) := Text.span Char.isDigit unsigned
  let (fraction, afterFraction) :=
    match afterWhole with
    | '.' :: rest => Text.span Char.isDigit rest
    | rest => ([], rest)
  if whole.isEmpty && fraction.isEmpty then none
  else
    match afterFraction with
    | [] => some (ofParts negative whole fraction 0)
    | rest =>
      match takeExponent? rest with
      | some (e, []) => some (ofParts negative whole fraction e)
      | _ => none

/-- Whether two underscores stand side by side. -/
def hasDoubleUnderscore (cs : List Char) : Bool :=
  (cs.zip cs.tail).any fun (a, b) => a == '_' && b == '_'

/-- Underscores between characters, which group digits; a text with none, with one at an end or
with two in a row has no ungrouped form. -/
def ungroup? (cs : List Char) : Option (List Char) :=
  if cs.contains '_' && cs.head? != some '_' && cs.getLast? != some '_' &&
      !hasDoubleUnderscore cs then some (cs.filter (· != '_'))
  else none

/-- An integer in decimal writing. -/
def ofInt (i : Int) : Decimal := ⟨i < 0, i.natAbs, 0⟩

end Decimal

namespace Scalar

variable {α : Type} [Scalar α]

/-- The values that have names instead of digits, in any case and with an optional sign. -/
def ofName? (cs : List Char) : Option α :=
  let (negative, name) := Decimal.takeSign cs
  let lower := String.ofList (name.map Char.toLower)
  let magnitude? : Option α :=
    if lower == "inf" || lower == "infinity" then infinity?
    else if lower == "nan" then undefined? else none
  magnitude?.map fun magnitude => if negative then -magnitude else magnitude

/-- A text without surrounding blanks as a number: a decimal or a named value. -/
def ofBareText? (cs : List Char) : Option α :=
  match Decimal.ofText? cs with
  | some d => some d.toScalar
  | none => ofName? cs

/-- A text as a number; blanks around it are allowed, or else underscores inside it. -/
def ofText? (s : String) : Option α :=
  match ofBareText? (Text.trimSpaces s.toList) with
  | some x => some x
  | none => (Decimal.ungroup? s.toList).bind ofBareText?

end Scalar

end Whiteboard
