import Whiteboard.Decimal.Shortest

/-!
# Decimals of a fixed precision

A double rounded to a number of decimal places, or to a number of significant digits. The value is
exact before it is rounded, and a half goes to the even neighbor.
-/

namespace Whiteboard.Decimal

/-- `q` rounded to a multiple of `10 ^ e`, as the count of that unit. -/
def roundTo (q : Quotient) (e : Int) : Nat :=
  if e < 0 then Binary64.roundQuotient (q.num * Nat.pow 10 e.natAbs) q.den
  else Binary64.roundQuotient q.num (q.den * Nat.pow 10 e.natAbs)

/-- A double rounded to `places` decimal places. -/
def fixed (places : Nat) (b : Binary64) : Decimal :=
  ⟨b.negative, roundTo (.binary b.significand b.exponent) (-places), -places⟩

/-- A decimal with no zeros at the end of its fraction; zero has no sign. -/
def plainText (d : Decimal) : List Char :=
  if d.digits = 0 then ['0']
  else
    let places := (-d.exponent).toNat
    let digits := Nat.toDigits 10 d.digits
    let padded := List.replicate (places + 1 - digits.length) '0' ++ digits
    let whole := padded.take (padded.length - places)
    let (fraction, _) := stripZeros 0 (padded.drop (padded.length - places)).reverse
    (if d.negative then ['-'] else []) ++ whole ++
      (if fraction.isEmpty then [] else '.' :: fraction)

/-- A double in the writing with one digit before the point and `places` behind it. -/
def scientificText (places : Nat) (b : Binary64) : List Char :=
  let q := Quotient.binary b.significand b.exponent
  let power := leadingPower q
  let rounded := roundTo q (power - places)
  let (digits, power) :=
    if digitCount rounded ≤ places + 1 then (rounded, power) else (rounded / 10, power + 1)
  let written := Nat.toDigits 10 digits
  (if b.negative then ['-'] else []) ++ written.take 1 ++ '.' :: written.drop 1 ++
    'e' :: exponentText power

end Whiteboard.Decimal
