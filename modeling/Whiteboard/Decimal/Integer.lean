import Whiteboard.Decimal
import Whiteboard.Text.Span

/-!
# Integers in texts

A text writes an integer by an optional sign and digits, with blanks around it. Single underscores
may group the digits, a fraction of zeros may follow them, and zeros, with underscores among them,
may stand in front; a minus sign comes before or behind these. There is a limit to the digits.
-/

namespace Whiteboard.Decimal

/-- Why a text is read as no integer. -/
inductive IntegerFault where
  | malformed
  | tooLong
  deriving DecidableEq, Repr

/-- The most digits that are read. -/
def maxIntegerDigits : Nat := 4300

/-- What is left behind a zero and the zeros and underscores that follow it. Before a point and at
the end, the last of these stays. -/
def dropZeros? (last : Char) : List Char → Option (List Char)
  | [] => some [last]
  | c :: rest =>
    if c == '0' || c == '_' then dropZeros? c rest
    else if c == '.' then some (last :: c :: rest)
    else if c == '-' || c.isDigit then some (c :: rest)
    else none

/-- An integer without blanks, a plus sign and zeros in front. -/
def dropFront? (cs : List Char) : Option (List Char) :=
  let unsigned :=
    match cs with
    | '+' :: rest => rest
    | _ => cs
  match unsigned with
  | '0' :: rest => dropZeros? '0' rest
  | c :: _ => if c.isDigit || (c == '-' && unsigned == cs) then some unsigned else none
  | [] => none

/-- Digits without a fraction of zeros. -/
def dropEmptyFraction (cs : List Char) : List Char :=
  match Text.span (· != '.') cs with
  | (whole, '.' :: zeros) =>
    if !zeros.isEmpty && zeros.all (· == '0') then whole else cs
  | _ => cs

/-- A minus sign, if there is one, and digits of which the first is no zero, or a lone zero. -/
def readDigits (cs : List Char) : Except IntegerFault Int :=
  let (negative, unsigned) : Bool × List Char :=
    match cs with
    | '-' :: rest => (true, rest)
    | _ => (false, cs)
  let (digits, rest) := Text.span Char.isDigit unsigned
  if digits.isEmpty || (digits.head? == some '0' && 1 < digits.length) then .error .malformed
  else if maxIntegerDigits < digits.length then .error .tooLong
  else if !rest.isEmpty then .error .malformed
  else .ok (if negative then -(ofDigits digits : Int) else ofDigits digits)

/-- The integer that a text writes. -/
def readInteger (s : String) : Except IntegerFault Int :=
  match dropFront? (Text.trimSpaces s.toList) with
  | none => .error .malformed
  | some front =>
    let whole := dropEmptyFraction front
    readDigits ((ungroup? whole).getD whole)

end Whiteboard.Decimal
