import Whiteboard.Scalar.Binary64

/-!
# Doubles as scalars

A double that is no number has no value to be recognized by, so it is recognized by its origin: what
an operation just yielded differs from all others, and also from itself; once it was kept, it is one
with all that were kept; and all that JSON wrote are one.
-/

namespace Whiteboard

/-- Where a double comes from, which counts only where it is no number. -/
inductive Origin where
  | computed
  | kept
  | written
  deriving DecidableEq, Repr

structure Double where
  value : Float
  origin : Origin
  /-- All numbers are as if they were kept. -/
  kept_of_number : value.isNaN = false → origin = .kept

namespace Double

/-- A value that comes from somewhere. -/
def tagged (x : Float) (origin : Origin) : Double :=
  if h : x.isNaN = true then ⟨x, origin, fun hn => absurd (hn.symm.trans h) Bool.false_ne_true⟩
  else ⟨x, .kept, fun _ => rfl⟩

/-- What an operation yields. -/
def ofFloat (x : Float) : Double := tagged x .computed

/-- Equality of numbers, and of what is no number by its origin. -/
def same (a b : Double) : Bool :=
  a.value == b.value ||
    (a.value.isNaN && b.value.isNaN && a.origin = b.origin && a.origin ≠ .computed)

/-- The double is kept. -/
def settle (a : Double) : Double := if a.origin = .computed then tagged a.value .kept else a

end Double

instance : Scalar Double where
  add a b := .ofFloat (a.value + b.value)
  sub a b := .ofFloat (a.value - b.value)
  mul a b := .ofFloat (a.value * b.value)
  div a b := .ofFloat (a.value / b.value)
  neg a := .ofFloat (-a.value)
  lt a b := a.value < b.value
  le a b := a.value ≤ b.value
  decLt a b := inferInstanceAs (Decidable (a.value < b.value))
  decLe a b := inferInstanceAs (Decidable (a.value ≤ b.value))
  beq := Double.same
  ofScientific m negativeExponent e :=
    .ofFloat (Binary64.nearestDecimal false m (if negativeExponent then -(e : Int) else e))
  ofInt i := .ofFloat (Binary64.ofInt i)
  holdsInt := Binary64.holdsInt
  toInt? a := (Binary64.ofFloat? a.value).bind Binary64.toInt?
  isFinite a := a.value.isFinite
  infinity? := some (.ofFloat (1.0 / 0.0))
  undefined? := some (.ofFloat (0.0 / 0.0))
  writtenUndefined? := some (.tagged (0.0 / 0.0) .written)
  settle := Double.settle
  modulo a b := .ofFloat (Binary64.modulo a.value b.value)
  hypot a b := .ofFloat (Binary64.hypot a.value b.value)
  cosDeg a := .ofFloat (Float.cos (a.value * Binary64.radiansPerDegree))
  sinDeg a := .ofFloat (Float.sin (a.value * Binary64.radiansPerDegree))

end Whiteboard
