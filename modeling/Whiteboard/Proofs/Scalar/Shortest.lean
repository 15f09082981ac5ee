import Whiteboard.Decimal
import Whiteboard.Proofs.Scalar.Double
import Whiteboard.Proofs.Scalar.Nearest

/-!
# Decimals of doubles

A finite double is the nearest to each decimal that rounds to it, its shortest decimal among them
(`toScalar_eq`).
-/

namespace Whiteboard

namespace Binary64

open Float.Model (UnpackedFloat)
open Float.Model.UnpackedFloat
open Decimal (RoundsTo)

/-! ## Doubles by their values -/

theorem Canonical.eq_of_units_eq {m m' : Nat} {e e' : Int} (h : Canonical m e)
    (h' : Canonical m' e') (heq : units m e = units m' e') : m = m' ∧ e = e' := by
  rcases lt_trichotomy e e' with hlt | rfl | hlt
  · exact absurd heq (h.units_lt_units h' hlt).ne
  · exact ⟨Nat.eq_of_mul_eq_mul_right (pow_two_pos _) heq, rfl⟩
  · exact absurd heq (h'.units_lt_units h hlt).ne'

theorem eq_of_ofBits? {i j : Nat} (hi : i < Nat.pow 2 64) (hj : j < Nat.pow 2 64) {b : Binary64}
    (h : ofBits? i = some b) (h' : ofBits? j = some b) : i = j := by
  unfold ofBits? at h h'
  simp only [Nat.pow_eq] at hi hj h h'
  split at h
  · contradiction
  split at h'
  · contradiction
  split at h <;> split at h' <;> cases h <;>
    simp only [Option.some.injEq, mk.injEq, decide_eq_decide] at h' <;> omega

theorem eq_of_ofFloat? {x y : Float} {b : Binary64} (h : ofFloat? x = some b)
    (h' : ofFloat? y = some b) : x = y := by
  have hbits : x.toBits = y.toBits :=
    UInt64.toNat.inj (eq_of_ofBits? x.toBits.toNat_lt y.toBits.toNat_lt h h')
  obtain ⟨⟨i, hi⟩⟩ := x
  obtain ⟨⟨j, hj⟩⟩ := y
  cases hbits
  rfl

theorem ofFloat?_exact_of_canonical (s : Bool) {m : Nat} {e : Int} (hc : Canonical m e) :
    ofFloat? (exact s m e) = some ⟨s, m, e⟩ := by
  obtain ⟨m', e', hexact, -, hunits⟩ :=
    ofFloat?_exact ⟨hc.least_le, hc.lt.le, hc.units_lt_beyond⟩ s
  obtain ⟨rfl, rfl⟩ := (canonical_of_ofFloat? hexact).eq_of_units_eq hc hunits
  exact hexact

theorem ofFloat?_neg {x : Float} {b : Binary64} (h : ofFloat? x = some b) :
    ofFloat? (-x) = some ⟨!b.negative, b.significand, b.exponent⟩ := by
  have hc := isCanonical_unpack x.toModel.toBits.toBitVec
  rw [← ofUnpacked?_toModel] at h ⊢
  change ofUnpacked? (Float.Model.pack x.toModel.unpack.neg).unpack = _
  change IsCanonical x.toModel.unpack at hc
  generalize x.toModel.unpack = u at h hc
  have hneg : IsCanonical u.neg := by
    cases u with
    | finite s m e hm => exact hc
    | _ => trivial
  rw [unpack_pack hneg]
  cases u with
  | notANumber | infinity => simp [ofUnpacked?] at h
  | zero s | finite s =>
    cases h
    cases s <;> rfl

/-- A decimal that is written for a double: zero for zero, or one that rounds to it. -/
structure Writes (d : Decimal) (b : Binary64) : Prop where
  negative : d.negative = b.negative
  zero : b.significand = 0 → d.digits = 0
  roundsTo : b.significand ≠ 0 →
    RoundsTo b.significand b.exponent (d.digits * 10 ^ d.exponent)

theorem writes_shortest {x : Float} {b : Binary64} (h : ofFloat? x = some b) :
    Writes (Decimal.shortest b) b where
  negative := by
    unfold Decimal.shortest
    split <;> rfl
  zero hb := by rw [Decimal.shortest, if_pos hb]
  roundsTo hb := Decimal.roundsTo_shortest (canonical_of_ofFloat? h) hb

theorem Writes.nearestDecimal_eq {d : Decimal} {b : Binary64} (h : Writes d b)
    (hc : Canonical b.significand b.exponent) :
    nearestDecimal false d.digits d.exponent = exact false b.significand b.exponent := by
  by_cases hb : b.significand = 0
  · rw [nearestDecimal, if_pos (h.zero hb), hb]
    exact exact_congr (by decide) hc.least_le (by rw [units_zero, units_zero])
  · exact nearestDecimal_of_roundsTo false hc (Nat.pos_of_ne_zero hb) (h.roundsTo hb)

end Binary64

namespace Double

theorem ofFloat_value {x : Double} (h : x.value.isNaN = false) : ofFloat x.value = x := by
  obtain ⟨value, origin, hkept⟩ := x
  obtain rfl := hkept h
  exact dif_neg (by rw [h]; decide)

theorem neg_eq (x : Double) : -x = ofFloat (-x.value) := rfl

theorem ofScientific_eq (m : Nat) (negative : Bool) (e : Nat) :
    (OfScientific.ofScientific m negative e : Double)
      = ofFloat (Binary64.nearestDecimal false m (if negative then -(e : Int) else e)) := rfl

theorem toScalar_eq_ofFloat (d : Decimal) :
    (d.toScalar : Double) = ofFloat (if d.negative then
      -Binary64.nearestDecimal false d.digits d.exponent
      else Binary64.nearestDecimal false d.digits d.exponent) := by
  have hexp : (if decide (d.exponent < 0) = true then -(d.exponent.natAbs : Int)
      else d.exponent.natAbs) = d.exponent := by
    simp only [decide_eq_true_iff]
    split <;> omega
  unfold Decimal.toScalar
  dsimp only
  rw [ofScientific_eq, hexp]
  split
  · rw [neg_eq, value_ofFloat]
  · rfl

/-- A finite double is the nearest to what is written for it. -/
theorem toScalar_eq {x : Double} {b : Binary64} (h : Binary64.ofFloat? x.value = some b)
    {d : Decimal} (hd : Binary64.Writes d b) : d.toScalar = x := by
  have hc := Binary64.canonical_of_ofFloat? h
  have hmagnitude := Binary64.ofFloat?_exact_of_canonical false hc
  have hvalue : (if d.negative then -Binary64.nearestDecimal false d.digits d.exponent
      else Binary64.nearestDecimal false d.digits d.exponent) = x.value := by
    rw [hd.nearestDecimal_eq hc, hd.negative]
    obtain ⟨negative, m, e⟩ := b
    cases negative with
    | true => exact Binary64.eq_of_ofFloat? (Binary64.ofFloat?_neg hmagnitude) h
    | false => exact Binary64.eq_of_ofFloat? hmagnitude h
  have hnumber : x.value.isNaN = false := by
    rw [Bool.eq_false_iff, ne_eq, Binary64.isNaN_iff, Binary64.rank?_of_ofFloat? h]
    simp
  rw [toScalar_eq_ofFloat, hvalue, ofFloat_value hnumber]

end Double

end Whiteboard
