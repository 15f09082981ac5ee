import Mathlib
import Whiteboard.Proofs.Scalar.Lawful

/-!
# Exact numbers

The numbers of an ordered field, each of which lies between two integers, as scalars. Nothing is
rounded and all of them are finite; how long a vector is and where an angle leads is left open.
They obey the laws of numbers (`Scalar.instLawfulScalarOfField`) and have no bounds
(`Scalar.unboundedScalar_ofField`).
-/

namespace Whiteboard

/-- What a field does not tell about the sides of triangles. -/
class Trigonometry (α : Type) where
  cosDeg : α → α
  sinDeg : α → α
  hypot : α → α → α

noncomputable instance : Trigonometry ℝ where
  cosDeg x := Real.cos (x * Real.pi / 180)
  sinDeg x := Real.sin (x * Real.pi / 180)
  hypot x y := √(x ^ 2 + y ^ 2)

/-- Numbers among which are all integers, and whose differences are numbers of the right sign. -/
structure UnboundedScalar (α : Type) [Scalar α] : Prop extends LawfulScalar α where
  holdsInt : ∀ i : Int, Scalar.holdsInt α i = true
  isFinite : ∀ x : α, Scalar.isFinite x = true
  sub_nonneg : ∀ {x y : α}, x ≤ y → 0 ≤ y - x

namespace Scalar

variable {α : Type} [Field α] [LinearOrder α] [FloorRing α] [Trigonometry α]

instance ofField : Scalar α where
  add := (· + ·)
  sub := (· - ·)
  mul := (· * ·)
  div := (· / ·)
  neg := (- ·)
  lt := (· < ·)
  le := (· ≤ ·)
  beq x y := decide (x = y)
  ofScientific m negativeExponent e := if negativeExponent then m / 10 ^ e else m * 10 ^ e
  decLt := inferInstance
  decLe := inferInstance
  ofInt i := i
  holdsInt _ := true
  toInt? x := if (⌊x⌋ : α) = x then some ⌊x⌋ else none
  isFinite _ := true
  infinity? := none
  undefined? := none
  writtenUndefined? := none
  settle x := x
  modulo x y := x - y * ⌊x / y⌋
  hypot := Trigonometry.hypot
  cosDeg := Trigonometry.cosDeg
  sinDeg := Trigonometry.sinDeg

theorem instOfNat_eq (n : Nat) : (@OfNat.ofNat α n (instOfNat n)) = (n : α) := Int.cast_natCast n

@[simp]
theorem isFinite_ofField (x : α) : isFinite x = true := rfl

theorem ofNat_ofField (n : Nat) : (ofNat n : α) = n := Int.cast_natCast n

theorem sum_ofField (xs : List α) : sum xs = xs.sum := by
  rw [List.sum_eq_foldl, sum, instOfNat_eq, Nat.cast_zero]

theorem modulo_ofField (x y : α) : modulo x y = x - y * ⌊x / y⌋ := rfl

variable [IsStrictOrderedRing α]

theorem modulo_nonneg {x y : α} (hy : 0 < y) : 0 ≤ modulo x y := by
  have h : y * ⌊x / y⌋ ≤ x := by
    have := Int.floor_le (x / y)
    rwa [le_div_iff₀ hy, mul_comm] at this
  rw [modulo_ofField]
  exact sub_nonneg.mpr h

theorem modulo_lt {x y : α} (hy : 0 < y) : modulo x y < y := by
  have h : x < y * (⌊x / y⌋ + 1) := by
    have := Int.lt_floor_add_one (x / y)
    rwa [div_lt_iff₀ hy, mul_comm] at this
  rw [modulo_ofField]
  linarith

theorem modulo_of_nonneg_of_lt {x y : α} (hx : 0 ≤ x) (h : x < y) : modulo x y = x := by
  have hy : 0 < y := hx.trans_lt h
  have hfloor : ⌊x / y⌋ = 0 := by
    rw [Int.floor_eq_zero_iff]
    exact ⟨div_nonneg hx hy.le, (div_lt_one hy).mpr h⟩
  rw [modulo_ofField, hfloor]
  simp

instance instLawfulScalarOfField : LawfulScalar α where
  symm h := by
    have h := of_decide_eq_true h
    exact decide_eq_true h.symm
  trans h h' := by
    have h := of_decide_eq_true h
    have h' := of_decide_eq_true h'
    exact decide_eq_true (h.trans h')
  le_trans := le_trans
  le_total _ _ := le_total _ _
  lt_iff := lt_iff_le_not_ge
  le_self _ := le_refl _
  beq_of_le_of_ge h h' := decide_eq_true (le_antisymm h h')
  settle_eq _ := rfl
  isFinite_settle := rfl
  isFinite_ofInt _ := rfl
  ofInt_pos {i} hi _ := by
    simp only [instOfNat_eq, Nat.cast_zero]
    exact Int.cast_pos.mpr hi
  neg_one_nonpos := by
    simp only [instOfNat_eq]
    simp
  le_self_of_mul _ := ⟨le_refl _, le_refl _⟩
  mul_nonneg hx hy _ := by
    simp only [instOfNat_eq, Nat.cast_zero] at hx hy ⊢
    exact mul_nonneg hx hy
  le_self_of_div _ := ⟨le_refl _, le_refl _⟩
  div_nonneg hx hy _ := by
    simp only [instOfNat_eq, Nat.cast_zero] at hx hy ⊢
    exact div_nonneg hx hy.le
  modulo_zero hy _ := by
    simp only [instOfNat_eq, Nat.cast_zero] at hy ⊢
    exact modulo_of_nonneg_of_lt le_rfl hy
  modulo_le hy _ := by
    simp only [instOfNat_eq, Nat.cast_zero] at hy
    exact (modulo_lt hy).le
  modulo_modulo hy h := by
    simp only [instOfNat_eq, Nat.cast_zero] at hy
    exact modulo_of_nonneg_of_lt (modulo_nonneg hy) h

theorem unboundedScalar_ofField : UnboundedScalar α where
  toLawfulScalar := instLawfulScalarOfField
  holdsInt _ := rfl
  isFinite _ := rfl
  sub_nonneg h := by
    simp only [instOfNat_eq, Nat.cast_zero]
    exact sub_nonneg.mpr h

theorem normalizeAngle_ofField (x : α) : normalizeAngle x = modulo x 360 := by
  have hturn : (0 : α) < 360 := by simp [instOfNat_eq]
  unfold normalizeAngle
  dsimp only
  split
  · next h => exact absurd (of_decide_eq_true h) (modulo_lt hturn).ne
  · rfl

/-- Just the angles of less than a full turn are normalized. -/
theorem normalizeAngle_eq_self_iff {x : α} : normalizeAngle x = x ↔ 0 ≤ x ∧ x < 360 := by
  have hturn : (0 : α) < 360 := by simp [instOfNat_eq]
  rw [normalizeAngle_ofField]
  constructor
  · intro h
    rw [← h]
    exact ⟨modulo_nonneg hturn, modulo_lt hturn⟩
  · rintro ⟨hnonneg, hlt⟩
    exact modulo_of_nonneg_of_lt hnonneg hlt

end Scalar

end Whiteboard
