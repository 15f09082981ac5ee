/-!
# Scalars

The numbers a board is measured in. `Scalar α` lists the arithmetic that layout, geometry and
editing use, so that the same definitions run on doubles and can be read over exact numbers.
The order of operations in those definitions is part of their meaning: nothing is reassociated.
-/

namespace Whiteboard

/-- Arithmetic, order and angle functions of a number type. Angles are in degrees. A value that is
no number is neither below nor above any other; it may differ even from itself. -/
class Scalar (α : Type) extends
    Add α, Sub α, Mul α, Div α, Neg α, LT α, LE α, BEq α, OfScientific α where
  decLt : DecidableLT α
  decLe : DecidableLE α
  /-- The number nearest to an integer. -/
  ofInt : Int → α
  /-- Whether an integer lies in the range of the type. -/
  holdsInt : Int → Bool
  /-- The integer that a number is, if it is one. -/
  toInt? : α → Option Int
  isFinite : α → Bool
  /-- The value written `inf`, where there is one. -/
  infinity? : Option α
  /-- A value that is no number, where there is one. -/
  undefined? : Option α
  /-- The value that is no number and has a writing in JSON, where there is one. -/
  writtenUndefined? : Option α
  /-- A value as it is once it was kept: from then on it equals itself. -/
  settle : α → α
  /-- The remainder that has the divisor's sign. -/
  modulo : α → α → α
  /-- The length of the vector with the given coordinates. -/
  hypot : α → α → α
  cosDeg : α → α
  sinDeg : α → α

namespace Scalar

variable {α : Type} [Scalar α]

instance : DecidableLT α := Scalar.decLt

instance : DecidableLE α := Scalar.decLe

instance (priority := low) instOfNat (n : Nat) : OfNat α n := ⟨Scalar.ofInt n⟩

/-- A number from a count. -/
def ofNat (n : Nat) : α := Scalar.ofInt n

/-- The smaller of two numbers, the first one if neither is smaller. -/
def lesser (a b : α) : α := if b < a then b else a

/-- The greater of two numbers, the first one if neither is greater. -/
def greater (a b : α) : α := if b > a then b else a

/-- The smallest number of `a :: rest`. -/
def least (a : α) (rest : List α) : α := rest.foldl lesser a

/-- The greatest number of `a :: rest`. -/
def greatest (a : α) (rest : List α) : α := rest.foldl greater a

def abs (a : α) : α := if a < 0 then -a else a

def sum (xs : List α) : α := xs.foldl (· + ·) 0

def isZero (a : α) : Bool := a == 0

/-- Whether a value lies beyond all finite ones. -/
def isInfinite (a : α) : Bool := !isFinite a && (a < 0 || a > 0)

/-- `a`, or `b` in place of zero. -/
def orElse (a b : α) : α := if isZero a then b else a

/-- `value` moved into the range from `low` to `high`; an empty range yields `high`. -/
def clamp (value low high : α) : α := lesser (greater value low) high

/-- The angle in `[0, 360)` that differs from the given one by whole turns. -/
def normalizeAngle (angle : α) : α :=
  let turned := modulo angle 360
  if turned == 360 then 0 else turned

end Scalar

end Whiteboard
