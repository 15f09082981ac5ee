import Whiteboard.Proofs.Decimal.Neighborhood
import Whiteboard.Proofs.Scalar.Rounding

/-!
# The nearest double

A quotient that rounds to a double has that double as its nearest (`nearest_of_roundsTo`), and so
has a decimal (`nearestDecimal_of_roundsTo`).
-/

namespace Whiteboard.Binary64

open Decimal (RoundsTo gapBelow gapBelow_le)

/-! ## Rounding to integers -/

/-- An integer nearest to a number; an even one may be half a unit away. -/
def IsNearest (k : Nat) (x : ℚ) : Prop :=
  if k % 2 = 0 then k - 1 / 2 ≤ x ∧ x ≤ k + 1 / 2 else k - 1 / 2 < x ∧ x < k + 1 / 2

theorem IsNearest.bounds {k n d : Nat} (hd : 0 < d) (h : IsNearest k (n / d)) :
    2 * k * d ≤ 2 * n + d ∧ 2 * n ≤ 2 * k * d + d ∧
      (2 * n + d = 2 * k * d ∨ 2 * n = 2 * k * d + d → k % 2 = 0) := by
  have hd' : (0 : ℚ) < d := Nat.cast_pos.mpr hd
  unfold IsNearest at h
  split at h
  · next heven =>
    rw [le_div_iff₀ hd', div_le_iff₀ hd'] at h
    refine ⟨?_, ?_, fun _ => heven⟩
    · have : (2 * k * d : ℚ) ≤ 2 * n + d := by linarith
      exact_mod_cast this
    · have : (2 * n : ℚ) ≤ 2 * k * d + d := by linarith
      exact_mod_cast this
  · rw [lt_div_iff₀ hd', div_lt_iff₀ hd'] at h
    have hlow : 2 * k * d < 2 * n + d := by
      have : (2 * k * d : ℚ) < 2 * n + d := by linarith
      exact_mod_cast this
    have hhigh : 2 * n < 2 * k * d + d := by
      have : (2 * n : ℚ) < 2 * k * d + d := by linarith
      exact_mod_cast this
    exact ⟨hlow.le, hhigh.le, by omega⟩

theorem roundQuotient_eq {k n d : Nat} (hd : 0 < d) (h : IsNearest k (n / d)) :
    roundQuotient n d = k := by
  obtain ⟨hlow, hhigh, htie⟩ := h.bounds hd
  have hsplit := Nat.div_add_mod n d
  have hmod := Nat.mod_lt n hd
  unfold roundQuotient
  dsimp only
  generalize n / d = q at *
  generalize n % d = r at *
  have hle : q ≤ k := by
    by_contra hlt
    have := Nat.mul_le_mul_right d (not_le.mp hlt : k + 1 ≤ q)
    nlinarith
  have hge : k ≤ q + 1 := by
    by_contra hlt
    have := Nat.mul_le_mul_right d (not_le.mp hlt : q + 1 + 1 ≤ k)
    nlinarith
  rcases hle.lt_or_eq with hlt | rfl
  · obtain rfl : k = q + 1 := by omega
    have hup : d ≤ 2 * r := by nlinarith
    rw [if_pos]
    rcases hup.lt_or_eq with hlt | heq
    · exact .inl hlt
    · have heven := htie (.inl (by nlinarith))
      exact .inr ⟨heq.symm, by omega⟩
  · have hdown : 2 * r ≤ d := by nlinarith
    rw [if_neg]
    rintro (hlt | ⟨heq, hodd⟩)
    · omega
    · have heven := htie (.inr (by nlinarith))
      omega

theorem roundScaled_eq {k n d : Nat} {e : Int} (hd : 0 < d) (h : IsNearest k (n / d / 2 ^ e)) :
    roundScaled n d e = k := by
  unfold roundScaled
  split
  · refine roundQuotient_eq hd ?_
    have he : e = -(e.natAbs : Int) := by omega
    rw [he, zpow_neg, zpow_natCast, div_inv_eq_mul, div_mul_eq_mul_div] at h
    rw [Nat.cast_mul, Nat.pow_eq, Nat.cast_pow, Nat.cast_ofNat]
    exact h
  · refine roundQuotient_eq (Nat.mul_pos hd (pow_two_pos _)) ?_
    have he : e = (e.natAbs : Int) := by omega
    rw [he, zpow_natCast, div_div] at h
    rw [Nat.cast_mul, Nat.pow_eq, Nat.cast_pow, Nat.cast_ofNat]
    exact h

/-! ## The exponent of a quotient -/

/-- The exponent at which a number has a full significand, or the least one. -/
structure IsExponent (x : ℚ) (e : Int) : Prop where
  least_le : -1074 ≤ e
  lt : x < 2 ^ 53 * 2 ^ e
  full : e = -1074 ∨ 2 ^ 52 * 2 ^ e ≤ x

theorem IsExponent.le {x : ℚ} {e e' : Int} (h : IsExponent x e) (h' : IsExponent x e') :
    e ≤ e' := by
  by_contra hlt
  have hfull := h.full.resolve_left (by have := h'.least_le; omega)
  have hpow : (2 : ℚ) ^ (e' + 1) ≤ 2 ^ e := zpow_le_zpow_right₀ one_le_two (by omega)
  rw [zpow_add_one₀ two_ne_zero] at hpow
  have := h'.lt
  linarith

theorem IsExponent.eq {x : ℚ} {e e' : Int} (h : IsExponent x e) (h' : IsExponent x e') : e = e' :=
  le_antisymm (h.le h') (h'.le h)

theorem isExponent_max {x : ℚ} {e : Int} (hlow : 2 ^ 52 * 2 ^ e ≤ x) (hhigh : x < 2 ^ 53 * 2 ^ e) :
    IsExponent x (max (-1074) e) := by
  rcases le_total (-1074) e with he | he
  · rw [max_eq_right he]
    exact ⟨he, hhigh, .inr hlow⟩
  · rw [max_eq_left he]
    have hpow : (2 : ℚ) ^ e ≤ 2 ^ (-1074 : Int) := zpow_le_zpow_right₀ one_le_two he
    exact ⟨le_rfl, hhigh.trans_le (mul_le_mul_of_nonneg_left hpow (by positivity)), .inl rfl⟩

/-- The comparison of a quotient with a power of two, by integers. -/
theorem fits_iff {n d : Nat} (hd : 0 < d) (e : Int) :
    (if e < 0 then decide (n * Nat.pow 2 e.natAbs < d * Nat.pow 2 53)
      else decide (n < d * Nat.pow 2 e.natAbs * Nat.pow 2 53)) = true ↔
        (n : ℚ) / d < 2 ^ 53 * 2 ^ e := by
  have hd' : (0 : ℚ) < d := Nat.cast_pos.mpr hd
  rw [div_lt_iff₀ hd']
  split
  · have he : e = -(e.natAbs : Int) := by omega
    rw [he, zpow_neg, zpow_natCast, Int.natAbs_neg, Int.natAbs_natCast, decide_eq_true_iff,
      mul_right_comm, ← div_eq_mul_inv, lt_div_iff₀ (by positivity), mul_comm (2 ^ 53 : ℚ)]
    simp only [Nat.pow_eq]
    exact_mod_cast Iff.rfl
  · have he : e = (e.natAbs : Int) := by omega
    rw [he, zpow_natCast, Int.natAbs_natCast, decide_eq_true_iff, mul_comm _ (d : ℚ),
      mul_comm (2 ^ 53 : ℚ), ← mul_assoc]
    simp only [Nat.pow_eq]
    exact_mod_cast Iff.rfl

/-- The logarithms tell a quotient up to a factor of two on either side. -/
theorem log2_bounds {n d : Nat} (hn : n ≠ 0) (hd : d ≠ 0) :
    (2 : ℚ) ^ 52 * 2 ^ ((n.log2 : Int) - d.log2 - 53) ≤ n / d ∧
      (n : ℚ) / d < 2 ^ 53 * 2 ^ ((n.log2 : Int) - d.log2 - 53 + 1) := by
  have hd' : (0 : ℚ) < d := Nat.cast_pos.mpr (Nat.pos_of_ne_zero hd)
  have hnlow : (2 : ℚ) ^ (n.log2 : Int) ≤ n := by exact_mod_cast Nat.log2_self_le hn
  have hnhigh : (n : ℚ) < 2 ^ (n.log2 + 1 : Int) := by exact_mod_cast Nat.lt_log2_self (n := n)
  have hdlow : (2 : ℚ) ^ (d.log2 : Int) ≤ d := by exact_mod_cast Nat.log2_self_le hd
  have hdhigh : (d : ℚ) < 2 ^ (d.log2 + 1 : Int) := by exact_mod_cast Nat.lt_log2_self (n := d)
  constructor
  · rw [le_div_iff₀ hd']
    calc (2 : ℚ) ^ 52 * 2 ^ ((n.log2 : Int) - d.log2 - 53) * d
        ≤ 2 ^ 52 * 2 ^ ((n.log2 : Int) - d.log2 - 53) * 2 ^ (d.log2 + 1 : Int) := by gcongr
      _ = 2 ^ (n.log2 : Int) := by
          rw [← zpow_natCast, ← zpow_add₀ two_ne_zero, ← zpow_add₀ two_ne_zero]
          congr 1
          push_cast
          ring
      _ ≤ n := hnlow
  · rw [div_lt_iff₀ hd']
    calc (n : ℚ) < 2 ^ (n.log2 + 1 : Int) := hnhigh
      _ = 2 ^ 53 * 2 ^ ((n.log2 : Int) - d.log2 - 53 + 1) * 2 ^ (d.log2 : Int) := by
          rw [← zpow_natCast, ← zpow_add₀ two_ne_zero, ← zpow_add₀ two_ne_zero]
          congr 1
          push_cast
          ring
      _ ≤ 2 ^ 53 * 2 ^ ((n.log2 : Int) - d.log2 - 53 + 1) * d := by gcongr

theorem isExponent_quotientExponent {n d : Nat} (hn : n ≠ 0) (hd : d ≠ 0) :
    IsExponent (n / d) (quotientExponent n d) := by
  obtain ⟨hlow, hhigh⟩ := log2_bounds hn hd
  unfold quotientExponent
  extract_lets guess fits
  by_cases hfits : fits = true
  · rw [if_pos hfits]
    exact isExponent_max hlow ((fits_iff (Nat.pos_of_ne_zero hd) guess).mp hfits)
  · rw [if_neg hfits]
    have hfull := not_lt.mp (mt (fits_iff (Nat.pos_of_ne_zero hd) guess).mpr hfits)
    refine isExponent_max ?_ hhigh
    rw [zpow_add_one₀ two_ne_zero]
    linarith

/-! ## Doubles -/

theorem isNearest_of_roundsTo {m : Nat} {e : Int} {x : ℚ} (h : RoundsTo m e x) :
    IsNearest m (x / 2 ^ e) := by
  have hunit : (0 : ℚ) < 2 ^ e := by positivity
  have hgap : ((m : ℚ) - 1 / 2) * 2 ^ e ≤ (m - gapBelow m e) * 2 ^ e := by
    have := gapBelow_le m e
    gcongr
  unfold RoundsTo at h
  unfold IsNearest
  split at h
  · next heven =>
    rw [if_pos heven, le_div_iff₀ hunit, div_le_iff₀ hunit]
    exact ⟨hgap.trans h.1, h.2⟩
  · next hodd =>
    rw [if_neg hodd, lt_div_iff₀ hunit, div_lt_iff₀ hunit]
    exact ⟨hgap.trans_lt h.1, h.2⟩

/-- A number below the power of two that it rounds to has an exponent less, and is rounded up. -/
theorem isNearest_of_lt_power {m : Nat} {e : Int} {x : ℚ} (hc : Canonical m (e + 1))
    (he : e + 1 ≠ -1074) (h : RoundsTo m (e + 1) x) (hlt : x < 2 ^ 52 * 2 ^ (e + 1)) :
    m = Nat.pow 2 52 ∧ IsExponent x e ∧ IsNearest (Nat.pow 2 53) (x / 2 ^ e) := by
  have hunit : (0 : ℚ) < 2 ^ e := by positivity
  obtain ⟨hlow, -⟩ := h.bounds
  have hpower : m = Nat.pow 2 52 := by
    refine le_antisymm ?_ (hc.full.resolve_left he)
    by_contra hgt
    have hgt' : (2 : ℚ) ^ 52 + 1 ≤ m := by exact_mod_cast not_le.mp hgt
    have := gapBelow_le m (e + 1)
    have : (2 : ℚ) ^ 52 * 2 ^ (e + 1) ≤ (m - gapBelow m (e + 1)) * 2 ^ (e + 1) := by
      refine mul_le_mul_of_nonneg_right ?_ (by positivity)
      linarith
    linarith
  have hgap : gapBelow m (e + 1) = 1 / 4 := if_pos ⟨hpower, he⟩
  have hcast : (m : ℚ) = 2 ^ 52 := by rw [hpower, Nat.pow_eq, Nat.cast_pow, Nat.cast_ofNat]
  rw [hgap, hcast, zpow_add_one₀ two_ne_zero] at hlow
  rw [zpow_add_one₀ two_ne_zero] at hlt
  refine ⟨hpower, ⟨by have := hc.least_le; omega, by linarith, .inr (by nlinarith)⟩, ?_⟩
  rw [IsNearest, if_pos (by decide), le_div_iff₀ hunit, div_le_iff₀ hunit, Nat.pow_eq,
    Nat.cast_pow, Nat.cast_ofNat]
  exact ⟨by linarith, by linarith⟩

/-- A quotient that rounds to a double has that double as its nearest. -/
theorem nearest_of_roundsTo (s : Bool) {m n d : Nat} {e : Int} (hc : Canonical m e) (hm : 0 < m)
    (hd : 0 < d) (h : RoundsTo m e (n / d)) : nearest s n d = exact s m e := by
  have hn : n ≠ 0 := by
    rintro rfl
    have := h.pos hm
    simp at this
  have hexp := isExponent_quotientExponent hn hd.ne'
  rw [nearest, if_neg (by omega)]
  dsimp only
  by_cases hfull : e = -1074 ∨ 2 ^ 52 * 2 ^ e ≤ (n : ℚ) / d
  · have hlt : (n : ℚ) / d < 2 ^ 53 * 2 ^ e := by
      have hm53 : (m : ℚ) + 1 ≤ 2 ^ 53 := by exact_mod_cast hc.lt
      refine h.bounds.2.trans_lt (mul_lt_mul_of_pos_right ?_ (by positivity))
      linarith
    rw [hexp.eq ⟨hc.least_le, hlt, hfull⟩, roundScaled_eq hd (isNearest_of_roundsTo h)]
  · rw [not_or, not_le] at hfull
    obtain ⟨e, rfl⟩ : ∃ e', e = e' + 1 := ⟨e - 1, by omega⟩
    obtain ⟨rfl, hexp', hround⟩ := isNearest_of_lt_power hc hfull.1 h hfull.2
    rw [hexp.eq hexp', roundScaled_eq hd hround]
    exact exact_mul_pow s (Nat.pow 2 52) 1 e

theorem roundsTo_lt {m : Nat} {e : Int} {x : ℚ} (hc : Canonical m e) (h : RoundsTo m e x) :
    x < 10 ^ (400 : Int) := by
  have hm : (m : ℚ) + 1 ≤ 2 ^ 53 := by exact_mod_cast hc.lt
  have hpow : 2 ^ (53 + 971) ≤ 10 ^ 400 := by decide +kernel
  calc x ≤ (m + 1 / 2) * 2 ^ e := h.bounds.2
    _ < 2 ^ 53 * 2 ^ e := by
        gcongr
        linarith
    _ ≤ 2 ^ 53 * 2 ^ (971 : Int) := by
        gcongr
        · exact one_le_two
        · exact hc.le_most
    _ = 2 ^ (53 + 971) := by rw [pow_add, zpow_ofNat]
    _ ≤ 10 ^ (400 : Int) := by exact_mod_cast hpow

theorem lt_of_roundsTo {m : Nat} {e : Int} {x : ℚ} (hc : Canonical m e) (hm : 0 < m)
    (h : RoundsTo m e x) : (10 : ℚ) ^ (-400 : Int) < x := by
  have hm' : (1 : ℚ) ≤ m := Nat.one_le_cast.mpr hm
  have hgap := gapBelow_le m e
  have hpow : 2 ^ (1 + 1074) < 10 ^ 400 := by decide +kernel
  calc (10 : ℚ) ^ (-400 : Int) < (2 ^ (1 + 1074))⁻¹ := by
        rw [zpow_neg, zpow_ofNat]
        exact inv_strictAnti₀ (by positivity) (by exact_mod_cast hpow)
    _ = 1 / 2 * 2 ^ (-1074 : Int) := by
        rw [pow_add, mul_inv, zpow_neg, zpow_ofNat, pow_one, one_div]
    _ ≤ (m - gapBelow m e) * 2 ^ e :=
        mul_le_mul (by linarith) (zpow_le_zpow_right₀ one_le_two hc.least_le) (by positivity)
          (by linarith)
    _ ≤ x := h.bounds.1

/-- A decimal that rounds to a double has that double as its nearest. -/
theorem nearestDecimal_of_roundsTo (s : Bool) {m k : Nat} {e i : Int} (hc : Canonical m e)
    (hm : 0 < m) (h : RoundsTo m e (k * 10 ^ i)) : nearestDecimal s k i = exact s m e := by
  have hk : k ≠ 0 := by
    rintro rfl
    have := h.pos hm
    simp at this
  have hk' : (1 : ℚ) ≤ k := Nat.one_le_cast.mpr (Nat.pos_of_ne_zero hk)
  have hi : ¬ 400 < i := by
    intro hlt
    have hpow : (10 : ℚ) ^ (400 : Int) ≤ 10 ^ i := zpow_le_zpow_right₀ (by norm_num) hlt.le
    have := roundsTo_lt hc h
    have : (10 : ℚ) ^ i ≤ k * 10 ^ i := le_mul_of_one_le_left (by positivity) hk'
    linarith
  have hi' : ¬ i < -400 - (k.log2 : Int) := by
    intro hlt
    have hlog : (k : ℚ) ≤ 10 ^ (k.log2 + 1 : Int) := by
      have := Nat.lt_log2_self.le.trans (Nat.pow_le_pow_left (by decide : 2 ≤ 10) (k.log2 + 1))
      exact_mod_cast this
    have hle : (k : ℚ) * 10 ^ i ≤ 10 ^ (-400 : Int) := by
      calc (k : ℚ) * 10 ^ i ≤ 10 ^ (k.log2 + 1 : Int) * 10 ^ i := by gcongr
        _ = 10 ^ (k.log2 + 1 + i : Int) := (zpow_add₀ (by norm_num) _ _).symm
        _ ≤ 10 ^ (-400 : Int) := zpow_le_zpow_right₀ (by norm_num) (by omega)
    have := lt_of_roundsTo hc hm h
    linarith
  rw [nearestDecimal, if_neg hk, if_neg hi, if_neg hi']
  split
  · refine nearest_of_roundsTo s hc hm (Nat.pow_pos (by decide)) ?_
    have hneg : i = -(i.natAbs : Int) := by omega
    rw [hneg, zpow_neg, zpow_natCast, ← div_eq_mul_inv] at h
    rw [Nat.pow_eq, Nat.cast_pow, Nat.cast_ofNat]
    exact h
  · refine nearest_of_roundsTo s hc hm one_pos ?_
    have hpos : i = (i.natAbs : Int) := by omega
    rw [hpos, zpow_natCast] at h
    rw [Nat.cast_one, div_one, Nat.cast_mul, Nat.pow_eq, Nat.cast_pow, Nat.cast_ofNat]
    exact h

end Whiteboard.Binary64
