import Mathlib
import Whiteboard.Decimal.Shortest
import Whiteboard.Proofs.Scalar.Decoding

/-!
# The shortest decimal of a double

The shortest decimal lies among the numbers that round to the double (`roundsTo_shortest`): the grid
of decimals with 17 digits is finer than the interval of these is wide, so one of the two neighbors
on it is a hit, if no coarser grid had one.
-/

namespace Whiteboard.Decimal

open Binary64 (Canonical)

namespace Quotient

/-- The rational number that a quotient is. -/
def toRat (q : Quotient) : ℚ := q.num / q.den

theorem lt_eq_true_iff {a b : Quotient} (ha : 0 < a.den) (hb : 0 < b.den) :
    a.lt b = true ↔ a.toRat < b.toRat := by
  have ha' : (0 : ℚ) < a.den := Nat.cast_pos.mpr ha
  have hb' : (0 : ℚ) < b.den := Nat.cast_pos.mpr hb
  rw [lt, decide_eq_true_iff, toRat, toRat, div_lt_div_iff₀ ha' hb']
  exact_mod_cast Iff.rfl

theorem lt_eq_false_iff {a b : Quotient} (ha : 0 < a.den) (hb : 0 < b.den) :
    a.lt b = false ↔ b.toRat ≤ a.toRat := by
  rw [← not_lt, ← lt_eq_true_iff ha hb, Bool.not_eq_true]

/-- A quotient times a power of an integer, which goes above or below the stroke. -/
theorem toRat_scaled (b m n : Nat) (e : Int) (hb : 0 < b) :
    toRat (if e < 0 then ⟨m, n * Nat.pow b e.natAbs⟩ else ⟨m * Nat.pow b e.natAbs, n⟩)
      = m / n * (b : ℚ) ^ e := by
  have hb' : (b : ℚ) ≠ 0 := Nat.cast_ne_zero.mpr hb.ne'
  split
  · have he : e = -(e.natAbs : Int) := by omega
    rw [toRat, he, zpow_neg, zpow_natCast, Int.natAbs_neg, Int.natAbs_natCast]
    push_cast [Nat.pow_eq]
    rw [div_mul_eq_div_div, div_eq_mul_inv]
  · have he : e = (e.natAbs : Int) := by omega
    rw [toRat, he, zpow_natCast, Int.natAbs_natCast]
    push_cast [Nat.pow_eq]
    rw [mul_div_right_comm]

theorem toRat_binary (m : Nat) (e : Int) : (binary m e).toRat = m * 2 ^ e := by
  have h := toRat_scaled 2 m 1 e (by decide)
  rw [Nat.one_mul, Nat.cast_one, div_one] at h
  exact h

theorem toRat_decimal (m : Nat) (e : Int) : (decimal m e).toRat = m * 10 ^ e := by
  have h := toRat_scaled 10 m 1 e (by decide)
  rw [Nat.one_mul, Nat.cast_one, div_one] at h
  exact h

theorem den_binary_pos (m : Nat) (e : Int) : 0 < (binary m e).den := by
  unfold binary
  split
  · exact Nat.pow_pos (by decide)
  · exact Nat.one_pos

theorem den_decimal_pos (m : Nat) (e : Int) : 0 < (decimal m e).den := by
  unfold decimal
  split
  · exact Nat.pow_pos (by decide)
  · exact Nat.one_pos

end Quotient

/-! ## What rounds to a double -/

/-- The distance from a double down to where numbers start to round to it, in units of its last
digit. -/
def gapBelow (m : Nat) (e : Int) : ℚ := if m = Nat.pow 2 52 ∧ e ≠ -1074 then 1 / 4 else 1 / 2

theorem gapBelow_pos (m : Nat) (e : Int) : 0 < gapBelow m e := by
  unfold gapBelow
  split <;> norm_num

theorem gapBelow_le (m : Nat) (e : Int) : gapBelow m e ≤ 1 / 2 := by
  unfold gapBelow
  split <;> norm_num

/-- A number rounds to `m · 2 ^ e`; the ends are for even significands. -/
def RoundsTo (m : Nat) (e : Int) (x : ℚ) : Prop :=
  if m % 2 = 0 then (m - gapBelow m e) * 2 ^ e ≤ x ∧ x ≤ (m + 1 / 2) * 2 ^ e
  else (m - gapBelow m e) * 2 ^ e < x ∧ x < (m + 1 / 2) * 2 ^ e

theorem toRat_low {m : Nat} (hm : 0 < m) (e : Int) :
    (Neighborhood.of m e).low.toRat = (m - gapBelow m e) * 2 ^ e := by
  have hquarter : (2 : ℚ) ^ e = 4 * 2 ^ (e - 2) := by
    rw [zpow_sub₀ two_ne_zero]; norm_num; ring
  have hhalf : (2 : ℚ) ^ e = 2 * 2 ^ (e - 1) := by
    rw [zpow_sub₀ two_ne_zero]; norm_num; ring
  simp only [Neighborhood.of, gapBelow]
  split
  · rw [Quotient.toRat_binary, hquarter, Nat.cast_sub (by omega)]
    push_cast
    ring
  · rw [Quotient.toRat_binary, hhalf, Nat.cast_sub (by omega)]
    push_cast
    ring

theorem toRat_high (m : Nat) (e : Int) :
    (Neighborhood.of m e).high.toRat = (m + 1 / 2) * 2 ^ e := by
  have hhalf : (2 : ℚ) ^ e = 2 * 2 ^ (e - 1) := by
    rw [zpow_sub₀ two_ne_zero]; norm_num; ring
  rw [Neighborhood.of, Quotient.toRat_binary, hhalf]
  push_cast
  ring

theorem holds_iff {m : Nat} (hm : 0 < m) {e : Int} {q : Quotient} (hq : 0 < q.den) :
    (Neighborhood.of m e).holds q = true ↔ RoundsTo m e q.toRat := by
  have hlow : 0 < (Neighborhood.of m e).low.den := by
    simp only [Neighborhood.of]
    split <;> exact Quotient.den_binary_pos _ _
  have hhigh : 0 < (Neighborhood.of m e).high.den := Quotient.den_binary_pos _ _
  have hclosed : (Neighborhood.of m e).closed = decide (m % 2 = 0) := rfl
  rw [Neighborhood.holds, RoundsTo, hclosed, ← toRat_low hm, ← toRat_high]
  by_cases heven : m % 2 = 0
  · simp only [heven, decide_true, if_true, Bool.and_eq_true, Bool.not_eq_true',
      Quotient.lt_eq_false_iff hq hlow, Quotient.lt_eq_false_iff hhigh hq]
  · simp only [heven, decide_false, if_false, Bool.false_eq_true, Bool.and_eq_true,
      Quotient.lt_eq_true_iff hlow hq, Quotient.lt_eq_true_iff hq hhigh]

theorem RoundsTo.bounds {m : Nat} {e : Int} {x : ℚ} (h : RoundsTo m e x) :
    (m - gapBelow m e) * 2 ^ e ≤ x ∧ x ≤ (m + 1 / 2) * 2 ^ e := by
  unfold RoundsTo at h
  split at h
  · exact h
  · exact ⟨h.1.le, h.2.le⟩

theorem RoundsTo.of_lt_of_lt {m : Nat} {e : Int} {x : ℚ} (hlow : (m - gapBelow m e) * 2 ^ e < x)
    (hhigh : x < (m + 1 / 2) * 2 ^ e) : RoundsTo m e x := by
  unfold RoundsTo
  split
  · exact ⟨hlow.le, hhigh.le⟩
  · exact ⟨hlow, hhigh⟩

theorem RoundsTo.pos {m : Nat} {e : Int} {x : ℚ} (hm : 0 < m) (h : RoundsTo m e x) : 0 < x := by
  have hgap := gapBelow_le m e
  have hm' : (1 : ℚ) ≤ m := Nat.one_le_cast.mpr hm
  have hlow : 0 < (m - gapBelow m e) * 2 ^ e := mul_pos (by linarith) (by positivity)
  exact hlow.trans_le h.bounds.1

/-! ## The grids -/

/-- What is left of a value in units of a power of ten. -/
def Quotient.inUnits (q : Quotient) (e : Int) : Quotient :=
  if e < 0 then ⟨q.num * Nat.pow 10 e.natAbs, q.den⟩ else ⟨q.num, q.den * Nat.pow 10 e.natAbs⟩

theorem Quotient.toRat_inUnits (q : Quotient) (e : Int) :
    (q.inUnits e).toRat = q.toRat / 10 ^ e := by
  have h := toRat_scaled 10 q.num q.den (-e) (by decide)
  rw [Nat.cast_ofNat, zpow_neg, ← div_eq_mul_inv, Int.natAbs_neg] at h
  change _ = ((q.num : ℚ) / q.den) / 10 ^ e
  rw [inUnits, ← h]
  rcases lt_trichotomy e 0 with he | rfl | he
  · rw [if_pos he, if_neg (by omega)]
  · simp [Nat.pow_eq]
  · rw [if_neg (by omega), if_pos (by omega)]

/-- The point of a grid below the double. -/
def gridBelow (n : Neighborhood) (e : Int) : Nat := (n.value.inUnits e).num / (n.value.inUnits e).den

theorem gridBelow_bounds (n : Neighborhood) (e : Int) :
    (gridBelow n e : ℚ) * 10 ^ e ≤ n.value.toRat ∧
      n.value.toRat < ((gridBelow n e + 1 : Nat) : ℚ) * 10 ^ e := by
  have hten : (0 : ℚ) < 10 ^ e := by positivity
  have hfloor : gridBelow n e = ⌊n.value.toRat / 10 ^ e⌋₊ := by
    rw [← Quotient.toRat_inUnits, Quotient.toRat, Nat.floor_div_eq_div, gridBelow]
  have hnonneg : 0 ≤ n.value.toRat / 10 ^ e := by
    rw [← Quotient.toRat_inUnits, Quotient.toRat]
    positivity
  rw [hfloor, ← le_div_iff₀ hten, ← div_lt_iff₀ hten]
  push_cast
  exact ⟨Nat.floor_le hnonneg, Nat.lt_floor_add_one _⟩

theorem holds_of_onGrid? {n : Neighborhood} {e : Int} {d : Nat} (h : onGrid? n e = some d) :
    n.holds (.decimal d e) = true := by
  unfold onGrid? at h
  extract_lets scaled below above at h
  grind

theorem not_holds_of_onGrid? {n : Neighborhood} {e : Int} (h : onGrid? n e = none) :
    ¬ n.holds (.decimal (gridBelow n e) e) = true ∧
      ¬ n.holds (.decimal (gridBelow n e + 1) e) = true := by
  unfold onGrid? at h
  extract_lets scaled below above belowFits aboveFits at h
  change ¬ belowFits = true ∧ ¬ aboveFits = true
  clear_value belowFits aboveFits above below
  grind

/-- A grid finer than the interval is wide has a point in it. -/
theorem exists_onGrid? {m : Nat} (hm : 0 < m) {e k : Int}
    (hfine : (10 : ℚ) ^ k < (1 / 2 + gapBelow m e) * 2 ^ e) :
    ∃ d, onGrid? (Neighborhood.of m e) k = some d := by
  rw [← Option.isSome_iff_exists, ← Option.ne_none_iff_isSome]
  intro hnone
  obtain ⟨hbelow, habove⟩ := gridBelow_bounds (Neighborhood.of m e) k
  obtain ⟨hlow, hhigh⟩ := not_holds_of_onGrid? hnone
  generalize gridBelow (Neighborhood.of m e) k = b at hbelow habove hlow hhigh
  have hvalue : (Neighborhood.of m e).value.toRat = m * 2 ^ e := Quotient.toRat_binary m e
  have hunit : (0 : ℚ) < 2 ^ e := by positivity
  have hgap := gapBelow_pos m e
  rw [hvalue] at hbelow habove
  rw [holds_iff hm (Quotient.den_decimal_pos _ _), Quotient.toRat_decimal] at hlow hhigh
  -- with neither neighbor a hit, the whole interval would lie between them
  have hlow' : (b : ℚ) * 10 ^ k ≤ (m - gapBelow m e) * 2 ^ e := by
    by_contra hlt
    exact hlow (.of_lt_of_lt (not_le.mp hlt) (by nlinarith))
  have hhigh' : (m + 1 / 2) * 2 ^ e ≤ ((b + 1 : Nat) : ℚ) * 10 ^ k := by
    by_contra hlt
    exact hhigh (.of_lt_of_lt (by nlinarith) (not_le.mp hlt))
  push_cast at hhigh'
  linarith

/-! ## The leading digit -/

theorem pow_le_of_digitCount {n k : Nat} (h : digitCount n = k + 1) (hn : 0 < n) : 10 ^ k ≤ n := by
  cases k with
  | zero => exact hn
  | succ k =>
    by_contra hlt
    have := (Nat.length_toDigits_le_iff (b := 10) (by decide) (Nat.succ_pos k)).mpr (not_le.mp hlt)
    change digitCount n ≤ k + 1 at this
    omega

theorem floor_toRat_mul_pow (q : Quotient) (k : Nat) :
    q.num * Nat.pow 10 k / q.den = ⌊q.toRat * 10 ^ k⌋₊ := by
  rw [← Nat.floor_div_eq_div (K := ℚ), Quotient.toRat, div_mul_eq_mul_div, Nat.cast_mul,
    Nat.pow_eq, Nat.cast_pow, Nat.cast_ofNat]

theorem pow_leadingPower_le {q : Quotient} (h : 1 ≤ q.toRat * 10 ^ 400) :
    (10 : ℚ) ^ leadingPower q ≤ q.toRat := by
  obtain ⟨k, hk⟩ : ∃ k, digitCount ⌊q.toRat * 10 ^ 400⌋₊ = k + 1 :=
    Nat.exists_eq_succ_of_ne_zero Nat.length_toDigits_pos.ne'
  have hsplit : leadingPower q = k - 400 := by
    rw [leadingPower, floor_toRat_mul_pow, hk, Nat.cast_add_one]
    ring
  have hpow : 10 ^ k ≤ ⌊q.toRat * 10 ^ 400⌋₊ := pow_le_of_digitCount hk (Nat.floor_pos.mpr h)
  rw [Nat.le_floor_iff (zero_le_one.trans h), Nat.cast_pow, Nat.cast_ofNat] at hpow
  rw [hsplit, zpow_sub₀ (by norm_num), div_le_iff₀ (by positivity), zpow_natCast]
  exact hpow

/-! ## The search -/

theorem holds_shortestFrom {n : Neighborhood} {power : Int} {last : Nat}
    (hlast : ∃ d, onGrid? n (power + 1 - last) = some d) (fuel count : Nat)
    (h : count + fuel = last + 1) (hfuel : 0 < fuel) :
    n.holds (.decimal (shortestFrom n power fuel count).1 (shortestFrom n power fuel count).2)
      = true := by
  induction fuel generalizing count with
  | zero => contradiction
  | succ fuel ih =>
    rw [shortestFrom]
    cases hgrid : onGrid? n (power + 1 - count) with
    | some d => exact holds_of_onGrid? hgrid
    | none =>
      -- the search goes on, so the last grid is still to come
      have hne : count ≠ last := by
        rintro rfl
        obtain ⟨d, hd⟩ := hlast
        rw [hd] at hgrid
        contradiction
      exact ih (count + 1) (by omega) (by omega)

theorem one_le_value {m : Nat} {e : Int} (hc : Canonical m e) (hm : 0 < m) :
    1 ≤ (m : ℚ) * 2 ^ e * 10 ^ 400 := by
  have hm' : (1 : ℚ) ≤ m := Nat.one_le_cast.mpr hm
  have hpow : 2 ^ 1074 ≤ 10 ^ 400 := by decide +kernel
  calc (1 : ℚ) = 1 * 2 ^ (-1074 : Int) * 2 ^ 1074 := by
        rw [one_mul, zpow_neg, zpow_ofNat, inv_mul_cancel₀ (by positivity)]
    _ ≤ m * 2 ^ e * 10 ^ 400 := by
        gcongr
        · exact one_le_two
        · exact hc.least_le
        · exact_mod_cast hpow

/-- Decimals with 17 digits are finer than doubles. -/
theorem pow_lt_width {m : Nat} {e power : Int} (hc : Canonical m e)
    (hpower : (10 : ℚ) ^ power ≤ m * 2 ^ e) :
    (10 : ℚ) ^ (power + 1 - (17 : Nat)) < (1 / 2 + gapBelow m e) * 2 ^ e := by
  have hsplit : (10 : ℚ) ^ (power + 1 - (17 : Nat)) = 10 ^ power / 10 ^ 16 := by
    rw [show power + 1 - ((17 : Nat) : Int) = power - (16 : Nat) by omega,
      zpow_sub₀ (by norm_num), zpow_natCast]
  have hunit : (0 : ℚ) < 2 ^ e := by positivity
  have hm : (m : ℚ) / 10 ^ 16 < 1 / 2 + gapBelow m e := by
    unfold gapBelow
    split
    · next h =>
      rw [h.1]
      norm_num [Nat.pow_eq]
    · have hlt : (m : ℚ) < 2 ^ 53 := by exact_mod_cast hc.lt
      rw [div_lt_iff₀ (by positivity)]
      linarith
  calc (10 : ℚ) ^ (power + 1 - (17 : Nat)) = 10 ^ power / 10 ^ 16 := hsplit
    _ ≤ m * 2 ^ e / 10 ^ 16 := by gcongr
    _ = m / 10 ^ 16 * 2 ^ e := by ring
    _ < (1 / 2 + gapBelow m e) * 2 ^ e := by gcongr

/-- The shortest decimal of a double rounds to the double. -/
theorem roundsTo_shortest {b : Binary64} (hc : Canonical b.significand b.exponent)
    (hb : b.significand ≠ 0) :
    RoundsTo b.significand b.exponent ((shortest b).digits * 10 ^ (shortest b).exponent) := by
  have hm : 0 < b.significand := Nat.pos_of_ne_zero hb
  have hpower : (10 : ℚ) ^ leadingPower (.binary b.significand b.exponent)
      ≤ b.significand * 2 ^ b.exponent := by
    rw [← Quotient.toRat_binary]
    apply pow_leadingPower_le
    rw [Quotient.toRat_binary]
    exact one_le_value hc hm
  have hholds := holds_shortestFrom (exists_onGrid? hm (pow_lt_width hc hpower)) 17 1 rfl (by decide)
  rw [holds_iff hm (Quotient.den_decimal_pos _ _), Quotient.toRat_decimal] at hholds
  rw [shortest, if_neg hb]
  exact hholds

end Whiteboard.Decimal
