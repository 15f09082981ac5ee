import Whiteboard.Scalar

/-!
# Exact arithmetic of doubles

A finite double is a sign, a natural significand and a power of two. Remainders, lengths and
conversions are computed on that exact form and rounded once, to the nearest double with ties to
the even significand.
-/

namespace Whiteboard

/-- The number `± significand · 2 ^ exponent`. -/
structure Binary64 where
  negative : Bool
  significand : Nat
  exponent : Int
  deriving DecidableEq, Repr

namespace Binary64

/-- The exact value that bits stand for; `none` for infinities and for what is no number. -/
def ofBits? (bits : Nat) : Option Binary64 :=
  let fraction : Nat := bits % Nat.pow 2 52
  let biased : Nat := bits / Nat.pow 2 52 % Nat.pow 2 11
  let negative : Bool := Nat.pow 2 63 ≤ bits
  if biased = 2047 then none
  else if biased = 0 then some ⟨negative, fraction, -1074⟩
  else some ⟨negative, fraction + Nat.pow 2 52, (biased : Int) - 1075⟩

/-- The exact value of a finite double. -/
def ofFloat? (x : Float) : Option Binary64 := ofBits? x.toBits.toNat

/-- `m · 2 ^ e` without its fraction. -/
def shifted (m : Nat) (e : Int) : Nat :=
  if e < 0 then m / Nat.pow 2 e.natAbs else m * Nat.pow 2 e.natAbs

/-- The bits of the double `m · 2 ^ e` besides its sign; from the least power of two that is beyond
the range on, those of the infinity. -/
def magnitudeBits (m : Nat) (e : Int) : Nat :=
  let top : Int := m.log2 + e
  if m = 0 then 0
  else if 1023 < top then 2047 * Nat.pow 2 52
  else if top < -1022 then shifted m (e + 1074)
  else (top + 1022).toNat * Nat.pow 2 52 + shifted m (52 - m.log2)

/-- The double with the given sign and a value `m · 2 ^ e` that needs no rounding. -/
def exact (negative : Bool) (m : Nat) (e : Int) : Float :=
  .ofBits (.ofNat ((if negative then Nat.pow 2 63 else 0) + magnitudeBits m e))

/-- `n / d` rounded to an integer, a half going to the even neighbor. -/
def roundQuotient (n d : Nat) : Nat :=
  let q := n / d
  let r := n % d
  if d < 2 * r ∨ (2 * r = d ∧ q % 2 = 1) then q + 1 else q

/-- `n · 2 ^ -e / d` rounded to an integer. -/
def roundScaled (n d : Nat) (e : Int) : Nat :=
  if e < 0 then roundQuotient (n * Nat.pow 2 e.natAbs) d
  else roundQuotient n (d * Nat.pow 2 e.natAbs)

/-- The exponent `e` with `2 ^ 52 ≤ n / d / 2 ^ e < 2 ^ 53`, but no less than that of the least
double. -/
def quotientExponent (n d : Nat) : Int :=
  let guess : Int := (n.log2 : Int) - d.log2 - 53
  let fits : Bool :=
    if guess < 0 then n * Nat.pow 2 guess.natAbs < d * Nat.pow 2 53
    else n < d * Nat.pow 2 guess.natAbs * Nat.pow 2 53
  max (-1074) (if fits then guess else guess + 1)

/-- The double nearest to `± n / d`. -/
def nearest (negative : Bool) (n d : Nat) : Float :=
  if n = 0 ∨ d = 0 then exact negative 0 0
  else
    let e := quotientExponent n d
    exact negative (roundScaled n d e) e

/-- The double nearest to `± m · 2 ^ e`. -/
def nearestScaled (negative : Bool) (m : Nat) (e : Int) : Float :=
  let lifted : Int := max (-1074) (m.log2 + e - 52)
  if lifted ≤ e then exact negative m e
  else exact negative (roundQuotient m (Nat.pow 2 (lifted - e).natAbs)) lifted

/-- The double nearest to `± m · 10 ^ e`. -/
def nearestDecimal (negative : Bool) (m : Nat) (e : Int) : Float :=
  if m = 0 then exact negative 0 0
  else if 400 < e then exact negative 1 2000
  else if e < -400 - (m.log2 : Int) then exact negative 0 0
  else if e < 0 then nearest negative m (Nat.pow 10 e.natAbs)
  else nearest negative (m * Nat.pow 10 e.natAbs) 1

/-- The double nearest to an integer. -/
def ofInt (i : Int) : Float := nearestScaled (i < 0) i.natAbs 0

/-- Integers beyond the largest double are out of range. -/
def holdsInt (i : Int) : Bool := i.natAbs < Nat.pow 2 1024 - Nat.pow 2 970

/-- The integer a finite value is, if it has no fraction. -/
def toInt? (b : Binary64) : Option Int :=
  let sign : Int := if b.negative then -1 else 1
  if 0 ≤ b.exponent then some (sign * (b.significand * Nat.pow 2 b.exponent.natAbs : Nat))
  else
    let unit := Nat.pow 2 b.exponent.natAbs
    if b.significand % unit = 0 then some (sign * (b.significand / unit : Nat)) else none

/-- The significand of `b` at a smaller exponent. -/
def significandAt (b : Binary64) (e : Int) : Nat :=
  b.significand * Nat.pow 2 (b.exponent - e).natAbs

/-- The remainder of `x` by `y` with the sign of `y`. The remainder of the magnitudes is exact; only
where the signs differ, it is taken from the magnitude of `y`, and rounded. -/
def modulo (x y : Float) : Float :=
  match ofFloat? x, ofFloat? y with
  | some a, some b =>
    if b.significand = 0 then 0.0 / 0.0
    else
      let e := min a.exponent b.exponent
      let r := a.significandAt e % b.significandAt e
      if r = 0 then exact b.negative 0 0
      else if a.negative = b.negative then exact b.negative r e
      else nearestScaled b.negative (b.significandAt e - r) e
  | _, _ => 0.0 / 0.0

/-- One step of Newton's iteration for the integer square root. -/
def rootStep (n guess : Nat) : Nat := (guess + n / guess) / 2

/-- Newton's iteration from above; it stops when it no longer descends. -/
def rootFrom (n : Nat) : Nat → Nat → Nat
  | 0, guess => guess
  | fuel + 1, guess =>
    let next := rootStep n guess
    if next < guess then rootFrom n fuel next else guess

/-- The integer square root. -/
def root (n : Nat) : Nat :=
  if n = 0 then 0 else rootFrom n (n.log2 + 2) (Nat.pow 2 (n.log2 / 2 + 1))

/-- The double nearest to the length of the vector `(x, y)`. The root is taken of an integer wide
enough for 64 bits of result, and one more bit records whether it was exact. -/
def hypot (x y : Float) : Float :=
  match ofFloat? x, ofFloat? y with
  | some a, some b =>
    let e := min a.exponent b.exponent
    let square := Nat.pow (a.significandAt e) 2 + Nat.pow (b.significandAt e) 2
    let shift : Nat := 64
    let wide := square * Nat.pow 4 shift
    let r := root wide
    let sticky := if r * r = wide then 0 else 1
    let m := 2 * r + sticky
    nearestScaled false m (e - shift - 1)
  | _, _ => if x.isInf || y.isInf then 1.0 / 0.0 else 0.0 / 0.0

/-- Radians in a degree, the quotient of the double nearest to pi by 180. -/
def radiansPerDegree : Float := 3.141592653589793 / 180.0

end Binary64

end Whiteboard
