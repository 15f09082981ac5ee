import Whiteboard.Scalar

/-!
# Laws of numbers

What the proofs use of numbers. Rounding is left open: products and quotients are only asked for
their signs. Values that are not finite are allowed, and `x ≤ x` tells that `x` is a number; zero
may have two signs, so that `==` is coarser than equality. From these laws come the facts on which
the checks of documents rest: angles are normalized by one step
(`Scalar.normalizeAngle_normalizeAngle`), and what is taken no less than a bound is above it.
-/

namespace Whiteboard

/-- Numbers with the order and the signs of real ones. The greatest integers that are spoken of are
below `2 ^ 53`. -/
class LawfulScalar (α : Type) [Scalar α] : Prop extends PartialEquivBEq α where
  le_trans : ∀ {x y z : α}, x ≤ y → y ≤ z → x ≤ z
  le_total : ∀ {x y : α}, x ≤ x → y ≤ y → x ≤ y ∨ y ≤ x
  lt_iff : ∀ {x y : α}, x < y ↔ x ≤ y ∧ ¬ y ≤ x
  le_self : ∀ {x : α}, Scalar.isFinite x = true → x ≤ x
  beq_of_le_of_ge : ∀ {x y : α}, x ≤ y → y ≤ x → (x == y) = true
  settle_eq : ∀ {x : α}, Scalar.isFinite x = true → Scalar.settle x = x
  isFinite_settle : ∀ {x : α}, Scalar.isFinite (Scalar.settle x) = Scalar.isFinite x
  isFinite_ofInt : ∀ {i : Int}, i.natAbs < Nat.pow 2 53 →
    Scalar.isFinite (Scalar.ofInt i : α) = true
  ofInt_pos : ∀ {i : Int}, 0 < i → i.natAbs < Nat.pow 2 53 → (0 : α) < Scalar.ofInt i
  neg_one_nonpos : (-1 : α) ≤ 0
  le_self_of_mul : ∀ {x y : α}, x * y ≤ x * y → x ≤ x ∧ y ≤ y
  mul_nonneg : ∀ {x y : α}, 0 ≤ x → 0 ≤ y → x * y ≤ x * y → 0 ≤ x * y
  le_self_of_div : ∀ {x y : α}, x / y ≤ x / y → x ≤ x ∧ y ≤ y
  div_nonneg : ∀ {x y : α}, 0 ≤ x → 0 < y → x / y ≤ x / y → 0 ≤ x / y
  modulo_zero : ∀ {y : α}, 0 < y → Scalar.isFinite y = true → Scalar.modulo 0 y = 0
  /-- A remainder is below the divisor, if rounding does not lead to it. -/
  modulo_le : ∀ {x y : α}, 0 < y → Scalar.isFinite (Scalar.modulo x y) = true →
    Scalar.modulo x y ≤ y
  modulo_modulo : ∀ {x y : α}, 0 < y → Scalar.modulo x y < y →
    Scalar.modulo (Scalar.modulo x y) y = Scalar.modulo x y

namespace Scalar

variable {α : Type} [Scalar α] [LawfulScalar α]

open LawfulScalar

/-! ## Order -/

theorem le_of_lt {x y : α} (h : x < y) : x ≤ y := (lt_iff.mp h).1

theorem le_of_not_lt {x y : α} (hx : x ≤ x) (hy : y ≤ y) (h : ¬ x < y) : y ≤ x := by
  rcases le_total hx hy with hle | hge
  · exact Decidable.byContradiction fun hn => h (lt_iff.mpr ⟨hle, hn⟩)
  · exact hge

theorem lt_of_lt_of_le {x y z : α} (hxy : x < y) (hyz : y ≤ z) : x < z := by
  have ⟨hle, hn⟩ := lt_iff.mp hxy
  exact lt_iff.mpr ⟨le_trans hle hyz, fun hzx => hn (le_trans hyz hzx)⟩

theorem lt_asymm {x y : α} (h : x < y) : ¬ y < x := fun h' =>
  (lt_iff.mp h).2 (le_of_lt h')

theorem lt_irrefl (x : α) : ¬ x < x := fun h => lt_asymm h h

theorem beq_self {x : α} (h : isFinite x = true) : (x == x) = true :=
  beq_of_le_of_ge (le_self h) (le_self h)

theorem isFinite_ofNat {n : Nat} (h : n < Nat.pow 2 53) : isFinite (OfNat.ofNat n : α) = true :=
  isFinite_ofInt h

theorem ofNat_pos {n : Nat} (h : 0 < n) (hn : n < Nat.pow 2 53) : (0 : α) < OfNat.ofNat n :=
  ofInt_pos (Int.natCast_pos.mpr h) hn

theorem ofNat_nonneg {n : Nat} (hn : n < Nat.pow 2 53) : (0 : α) ≤ OfNat.ofNat n := by
  cases n with
  | zero => exact le_self (isFinite_ofInt (by decide))
  | succ n => exact le_of_lt (ofNat_pos n.succ_pos hn)

theorem le_greater_right {a b : α} (hb : b ≤ b) (h : greater a b ≤ greater a b) :
    b ≤ greater a b := by
  unfold greater at h ⊢
  split
  · exact hb
  · next hn =>
    rw [if_neg hn] at h
    exact le_of_not_lt h hb hn

theorem le_greater_left {a b : α} (ha : a ≤ a) : a ≤ greater a b := by
  unfold greater
  split
  · next h => exact le_of_lt h
  · exact ha

/-! ## Angles -/

theorem turn_pos : (0 : α) < 360 := ofNat_pos (by decide) (by decide)

theorem normalizeAngle_zero : normalizeAngle (0 : α) = 0 := by
  simp only [normalizeAngle, modulo_zero turn_pos (isFinite_ofNat (by decide)), ite_self]

/-- A normalized angle is normalized already. -/
theorem normalizeAngle_normalizeAngle {x : α} (h : isFinite (normalizeAngle x) = true) :
    normalizeAngle (normalizeAngle x) = normalizeAngle x := by
  by_cases hturn : (modulo x 360 == 360) = true
  · have hx : normalizeAngle x = 0 := by simp [normalizeAngle, hturn]
    rw [hx, normalizeAngle_zero]
  · have hx : normalizeAngle x = modulo x 360 := by simp [normalizeAngle, hturn]
    rw [hx] at h ⊢
    have hle := modulo_le turn_pos h
    have hlt : modulo x 360 < 360 :=
      lt_iff.mpr ⟨hle, fun hge => hturn (beq_of_le_of_ge hle hge)⟩
    rw [normalizeAngle, modulo_modulo turn_pos hlt]
    simp [hturn]

end Scalar

end Whiteboard
