import Whiteboard.Scalar.Binary64
import Whiteboard.Decimal

/-!
# Shortest decimals

The decimal with the fewest digits that reads back as a given double, and of those the nearest to
it; an exact tie goes to the even last digit. A grid of decimals with a fixed number of digits
meets the interval that reads back as the double only if one of the double's two neighbors on the
grid lies in it, so only those two are tried.
-/

namespace Whiteboard.Decimal

/-- The rational `num / den`. -/
structure Quotient where
  num : Nat
  den : Nat

/-- `m · 2 ^ e`. -/
def Quotient.binary (m : Nat) (e : Int) : Quotient :=
  if e < 0 then ⟨m, Nat.pow 2 e.natAbs⟩ else ⟨m * Nat.pow 2 e.natAbs, 1⟩

/-- `d · 10 ^ e`. -/
def Quotient.decimal (d : Nat) (e : Int) : Quotient :=
  if e < 0 then ⟨d, Nat.pow 10 e.natAbs⟩ else ⟨d * Nat.pow 10 e.natAbs, 1⟩

def Quotient.lt (a b : Quotient) : Bool := a.num * b.den < b.num * a.den

/-- The distance between two rationals. -/
def Quotient.distance (a b : Quotient) : Quotient :=
  ⟨((a.num * b.den : Nat) - (b.num * a.den : Nat) : Int).natAbs, a.den * b.den⟩

/-- The interval of numbers that round to a positive double. -/
structure Neighborhood where
  value : Quotient
  low : Quotient
  high : Quotient
  closed : Bool

/-- The numbers that round to `m · 2 ^ e`: to the middle of the gap on either side, where the gap
below a power of two is half as wide. -/
def Neighborhood.of (m : Nat) (e : Int) : Neighborhood where
  value := .binary m e
  low :=
    if m = Nat.pow 2 52 ∧ e ≠ -1074 then .binary (4 * m - 1) (e - 2)
    else .binary (2 * m - 1) (e - 1)
  high := .binary (2 * m + 1) (e - 1)
  closed := m % 2 = 0

def Neighborhood.holds (n : Neighborhood) (q : Quotient) : Bool :=
  if n.closed then !q.lt n.low && !n.high.lt q else n.low.lt q && q.lt n.high

/-- The number of decimal digits of a natural number. -/
def digitCount (n : Nat) : Nat := (Nat.toDigits 10 n).length

/-- The power of ten of the leading digit of a positive double. -/
def leadingPower (q : Quotient) : Int :=
  (digitCount (q.num * Nat.pow 10 400 / q.den) : Int) - 401

/-- The point of the grid of multiples of `10 ^ e` that stands for the double, if there is one. -/
def onGrid? (n : Neighborhood) (e : Int) : Option Nat :=
  let scaled : Quotient :=
    if e < 0 then ⟨n.value.num * Nat.pow 10 e.natAbs, n.value.den⟩
    else ⟨n.value.num, n.value.den * Nat.pow 10 e.natAbs⟩
  let below := scaled.num / scaled.den
  let above := below + 1
  let belowFits := n.holds (.decimal below e)
  let aboveFits := n.holds (.decimal above e)
  if belowFits && aboveFits then
    let down := (Quotient.decimal below e).distance n.value
    let up := (Quotient.decimal above e).distance n.value
    if down.lt up then some below
    else if up.lt down then some above
    else some (if below % 2 = 0 then below else above)
  else if belowFits then some below
  else if aboveFits then some above
  else none

/-- The first grid with a hit, from `count` digits on. -/
def shortestFrom (n : Neighborhood) (power : Int) : Nat → Nat → Nat × Int
  | 0, _ => (0, 0)
  | fuel + 1, count =>
    let e := power + 1 - count
    match onGrid? n e with
    | some digits => (digits, e)
    | none => shortestFrom n power fuel (count + 1)

/-- The shortest decimal of a finite double. -/
def shortest (b : Binary64) : Decimal :=
  if b.significand = 0 then ⟨b.negative, 0, 0⟩
  else
    let n := Neighborhood.of b.significand b.exponent
    let (digits, e) := shortestFrom n (leadingPower n.value) 17 1
    ⟨b.negative, digits, e⟩

/-- Digits with zeros at the end cut off, and how many there were. -/
def stripZeros : Nat → List Char → List Char × Nat
  | n, '0' :: rest => stripZeros (n + 1) rest
  | n, reversed => (reversed.reverse, n)

/-- An exponent with its sign and at least two digits. -/
def exponentText (e : Int) : List Char :=
  let digits := Nat.toDigits 10 e.natAbs
  (if e < 0 then '-' else '+') :: (if digits.length < 2 then '0' :: digits else digits)

/-- The writing of a decimal: with a point from `10 ^ -4` to below `10 ^ 16`, with at least one
digit on either side of it, and with an exponent otherwise. -/
def text (d : Decimal) : List Char :=
  let sign := if d.negative then ['-'] else []
  if d.digits = 0 then sign ++ ['0', '.', '0']
  else
    let (digits, zeros) := stripZeros 0 (Nat.toDigits 10 d.digits).reverse
    let point : Int := digits.length + d.exponent + zeros
    if -4 < point ∧ point ≤ 16 then
      let whole := digits.take point.toNat ++ List.replicate (point.toNat - digits.length) '0'
      let fraction := List.replicate (-point).toNat '0' ++ digits.drop point.toNat
      sign ++ (if whole.isEmpty then ['0'] else whole) ++ '.' ::
        (if fraction.isEmpty then ['0'] else fraction)
    else
      let tail := digits.drop 1
      sign ++ digits.take 1 ++ (if tail.isEmpty then [] else '.' :: tail) ++
        'e' :: exponentText (point - 1)

end Whiteboard.Decimal
