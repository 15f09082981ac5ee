import Whiteboard.Proofs.Scalar.Decoding

/-!
# Rounding

What the doubles made by `exact` and `nearestScaled` stand for. Rounding does not pass a double on
its way, so that a remainder that is rounded stays within its divisor, and the remainder of a
remainder is the remainder itself.
-/

namespace Whiteboard.Binary64

/-! ## Exact doubles -/

theorem pow_two_add (j k : Nat) : Nat.pow 2 (j + k) = Nat.pow 2 j * Nat.pow 2 k := Nat.pow_add ..

theorem pow_two_pos (k : Nat) : 0 < Nat.pow 2 k := Nat.pow_pos (by decide)

theorem lt_of_pow_two_lt {j k : Nat} (h : Nat.pow 2 j < Nat.pow 2 k) : j < k :=
  (Nat.pow_lt_pow_iff_right (by decide)).mp h

theorem shifted_mul_pow (m k : Nat) (e : Int) :
    shifted (m * Nat.pow 2 k) e = shifted m (e + k) := by
  unfold shifted
  by_cases he : e < 0
  · by_cases hk : e + k < 0
    · have hsplit : e.natAbs = k + (e + k).natAbs := by omega
      rw [if_pos he, if_pos hk, hsplit, pow_two_add, ← Nat.div_div_eq_div_mul,
        Nat.mul_div_cancel _ (pow_two_pos k)]
    · have hsplit : k = (e + k).natAbs + e.natAbs := by omega
      rw [if_pos he, if_neg hk]
      conv_lhs => rw [hsplit, pow_two_add, ← Nat.mul_assoc]
      exact Nat.mul_div_cancel _ (pow_two_pos _)
  · have hsplit : (e + k).natAbs = k + e.natAbs := by omega
    rw [if_neg he, if_neg (by omega), hsplit, pow_two_add, Nat.mul_assoc]

theorem log2_mul_pow {m : Nat} (hm : m ≠ 0) (k : Nat) :
    (m * Nat.pow 2 k).log2 = m.log2 + k := by
  induction k with
  | zero => simp [Nat.pow_eq]
  | succ k ih =>
    have hne : m * Nat.pow 2 k ≠ 0 := Nat.mul_ne_zero hm (pow_two_pos k).ne'
    have hdouble : m * Nat.pow 2 (k + 1) = 2 * (m * Nat.pow 2 k) := by
      rw [pow_two_add, ← Nat.mul_assoc, Nat.mul_comm]
    rw [hdouble, Nat.log2_two_mul hne, ih]
    rfl

/-- Only the value counts, not how it is written. -/
theorem exact_mul_pow (s : Bool) (m k : Nat) (e : Int) :
    exact s (m * Nat.pow 2 k) e = exact s m (e + k) := by
  have hbits : magnitudeBits (m * Nat.pow 2 k) e = magnitudeBits m (e + k) := by
    unfold magnitudeBits
    by_cases hm : m = 0
    · simp [hm]
    · have hne : m * Nat.pow 2 k ≠ 0 := Nat.mul_ne_zero hm (pow_two_pos k).ne'
      have htop : ((m.log2 + k : Nat) : Int) + e = m.log2 + (e + k) := by omega
      have hlow : e + 1074 + k = e + k + 1074 := by omega
      have hfull : (52 - ((m.log2 + k : Nat) : Int)) + k = 52 - m.log2 := by omega
      simp only [if_neg hm, if_neg hne, log2_mul_pow hm, shifted_mul_pow, htop, hlow, hfull]
  rw [exact, exact, hbits]

/-- A double by its value in units of the least positive one. -/
theorem exact_units (s : Bool) (m : Nat) {e : Int} (he : -1074 ≤ e) :
    exact s (units m e) (-1074) = exact s m e := by
  rw [units, exact_mul_pow]
  congr 1
  omega

theorem exact_congr {s : Bool} {m m' : Nat} {e e' : Int} (he : -1074 ≤ e) (he' : -1074 ≤ e')
    (h : units m e = units m' e') : exact s m e = exact s m' e' := by
  rw [← exact_units s m he, h, exact_units s m' he']

theorem pow_log2_le_units {m : Nat} (hm : m ≠ 0) (e : Int) :
    Nat.pow 2 (m.log2 + (e + 1074).toNat) ≤ units m e := by
  rw [pow_two_add]
  exact Nat.mul_le_mul_right _ (Nat.log2_self_le hm)

theorem units_lt_pow (m : Nat) (e : Int) :
    units m e < Nat.pow 2 (m.log2 + 1 + (e + 1074).toNat) := by
  rw [pow_two_add]
  exact Nat.mul_lt_mul_of_pos_right Nat.lt_log2_self (pow_two_pos _)

/-- Values in range that need no rounding. -/
structure Fits (m : Nat) (e : Int) : Prop where
  least_le : -1074 ≤ e
  le : m ≤ Nat.pow 2 53
  lt : units m e < beyond

theorem ofBits?_small (s : Bool) {u : Nat} (hu : u < Nat.pow 2 52) :
    ofBits? ((if s then Nat.pow 2 63 else 0) + u) = some ⟨s, u, -1074⟩ := by
  unfold ofBits?
  simp only [Nat.pow_eq] at hu ⊢
  rw [if_neg (by split <;> omega), if_pos (by split <;> omega)]
  simp only [Option.some.injEq, mk.injEq, and_true]
  cases s <;> simp only [Bool.false_eq_true, ↓reduceIte, decide_eq_false_iff_not,
    decide_eq_true_eq] <;> omega

theorem ofBits?_full (s : Bool) {k u : Nat} (hk : k ≤ 2045) (hlow : Nat.pow 2 52 ≤ u)
    (hhigh : u < Nat.pow 2 53) :
    ofBits? ((if s then Nat.pow 2 63 else 0) + (k * Nat.pow 2 52 + u))
      = some ⟨s, u, (k : Int) - 1074⟩ := by
  unfold ofBits?
  simp only [Nat.pow_eq] at hlow hhigh ⊢
  rw [if_neg (by split <;> omega), if_neg (by split <;> omega)]
  simp only [Option.some.injEq, mk.injEq]
  cases s <;> simp only [Bool.false_eq_true, ↓reduceIte, decide_eq_false_iff_not,
    decide_eq_true_eq] <;> omega

theorem ofFloat?_exact_of_bits (s : Bool) {m : Nat} {e : Int}
    (h : magnitudeBits m e < Nat.pow 2 63) :
    ofFloat? (exact s m e) = ofBits? ((if s then Nat.pow 2 63 else 0) + magnitudeBits m e) := by
  rw [exact, ofFloat?_ofBits, UInt64.toNat_ofNat_of_lt']
  simp only [Nat.pow_eq] at h ⊢
  change _ < 2 ^ 64
  split <;> omega

theorem log2_add_lt {m : Nat} {e : Int} (hm : m ≠ 0) (h : units m e < beyond) :
    m.log2 + (e + 1074).toNat < 2098 := by
  have hbeyond : beyond = Nat.pow 2 (53 + (971 + 1074 : Int).toNat) := by
    unfold beyond units
    rw [pow_two_add]
  have hpow := lt_of_le_of_lt (pow_log2_le_units hm e) h
  rw [hbeyond] at hpow
  have hlt := lt_of_pow_two_lt hpow
  omega

/-- A significand brought to its full length. -/
theorem shifted_full {m : Nat} (hm : m ≠ 0) (hle : m ≤ Nat.pow 2 53) {e : Int} (he : -1074 ≤ e)
    (hlow : -1022 ≤ m.log2 + e) :
    ∃ u, shifted m (52 - m.log2) = u ∧ Nat.pow 2 52 ≤ u ∧ u < Nat.pow 2 53 ∧
      units u (m.log2 + e - 52) = units m e := by
  by_cases hcarry : m = Nat.pow 2 53
  · have hlog : m.log2 = 53 := by rw [hcarry]; exact Nat.log2_two_pow
    refine ⟨Nat.pow 2 52, ?_, le_rfl, by decide, ?_⟩
    · rw [hlog, hcarry]
      decide
    · rw [hlog, hcarry, show ((53 : Nat) : Int) + e - 52 = e + (1 : Nat) by omega, units_add _ he]
  · have hlt : m < Nat.pow 2 53 := lt_of_le_of_ne hle hcarry
    have hlog : m.log2 < 53 := (Nat.log2_lt hm).mpr hlt
    obtain ⟨k, hk⟩ : ∃ k : Nat, m.log2 + k = 52 := ⟨52 - m.log2, by omega⟩
    have hshift : shifted m (52 - m.log2) = m * Nat.pow 2 k := by
      rw [shifted, if_neg (by omega)]
      congr 2
      omega
    have hfull : (m * Nat.pow 2 k).log2 = 52 := (log2_mul_pow hm k).trans hk
    have hne : m * Nat.pow 2 k ≠ 0 := Nat.mul_ne_zero hm (pow_two_pos k).ne'
    refine ⟨m * Nat.pow 2 k, hshift, ?_, ?_, ?_⟩
    · exact (Nat.le_log2 hne).mp hfull.ge
    · exact (Nat.log2_lt hne).mp (by omega)
    · rw [← units_add m (by omega)]
      congr 1
      omega

/-- The double of a value that fits stands for that value. -/
theorem ofFloat?_exact {m : Nat} {e : Int} (h : Fits m e) (s : Bool) :
    ∃ m' e', ofFloat? (exact s m e) = some ⟨s, m', e'⟩ ∧ -1074 ≤ e' ∧ units m' e' = units m e := by
  obtain ⟨hleast, hle, hlt⟩ := h
  by_cases hm : m = 0
  · subst hm
    refine ⟨0, -1074, ?_, le_rfl, (units_zero _).trans (units_zero e).symm⟩
    have hbits : magnitudeBits 0 e = 0 := by simp [magnitudeBits]
    rw [ofFloat?_exact_of_bits s (by rw [hbits]; decide), hbits]
    exact ofBits?_small s (by decide)
  have htop := log2_add_lt hm hlt
  by_cases hlow : (m.log2 : Int) + e < -1022
  · -- below the least full significand
    have hunits : units m e < Nat.pow 2 52 :=
      lt_of_lt_of_le (units_lt_pow m e) (Nat.pow_le_pow_right (by decide) (by omega))
    have hbits : magnitudeBits m e = units m e := by
      simp only [magnitudeBits, if_neg hm, if_pos hlow]
      rw [if_neg (by omega), shifted, if_neg (by omega), units]
      congr 2
      omega
    refine ⟨units m e, -1074, ?_, le_rfl, by simp [units]⟩
    rw [ofFloat?_exact_of_bits s (by rw [hbits]; exact hunits.trans (by decide)), hbits]
    exact ofBits?_small s hunits
  · obtain ⟨u, hshift, hge, hsmall, hunits⟩ := shifted_full hm hle hleast (by omega)
    have hbits : magnitudeBits m e = (m.log2 + e + 1022).toNat * Nat.pow 2 52 + u := by
      simp only [magnitudeBits, if_neg hm, if_neg hlow, hshift]
      rw [if_neg (by omega)]
    refine ⟨u, m.log2 + e - 52, ?_, by omega, hunits⟩
    have hexp : (((m.log2 + e + 1022).toNat : Nat) : Int) - 1074 = m.log2 + e - 52 := by omega
    rw [ofFloat?_exact_of_bits s, hbits, ofBits?_full s (by omega) hge hsmall, hexp]
    simp only [hbits, Nat.pow_eq] at hsmall ⊢
    omega

/-! ## Rounded doubles -/

/-- Rounding does not pass an integer on its way. -/
theorem roundQuotient_le {n d k : Nat} (hd : 0 < d) (h : n ≤ k * d) : roundQuotient n d ≤ k := by
  have hdiv : n / d ≤ k := Nat.div_le_of_le_mul (by rwa [Nat.mul_comm])
  rcases hdiv.lt_or_eq with hlt | heq
  · unfold roundQuotient
    dsimp only
    split <;> omega
  · have hsplit := Nat.div_add_mod n d
    rw [heq, Nat.mul_comm] at hsplit
    have hmod : n % d = 0 := by omega
    unfold roundQuotient
    dsimp only
    rw [if_neg (by omega)]
    exact hdiv

/-- Rounding a value leads to one that fits, and does not pass a double on its way. -/
theorem nearestScaled_exact (s : Bool) {m m' : Nat} {e e' : Int} (he : -1074 ≤ e)
    (hc : Canonical m' e') (h : units m e ≤ units m' e') :
    ∃ r q, nearestScaled s m e = exact s r q ∧ Fits r q ∧ units r q ≤ units m' e' := by
  have hbelow : units m e < beyond := lt_of_le_of_lt h hc.units_lt_beyond
  by_cases hlifted : max (-1074) ((m.log2 : Int) + e - 52) ≤ e
  · refine ⟨m, e, by simp only [nearestScaled, if_pos hlifted], ⟨he, ?_, hbelow⟩, h⟩
    refine Nat.lt_log2_self.le.trans (Nat.pow_le_pow_right (by decide) ?_)
    omega
  · -- the least `q` at which the value has no more than a full significand
    obtain ⟨k, hk⟩ : ∃ k : Nat, max (-1074) ((m.log2 : Int) + e - 52) = e + k :=
      ⟨(max (-1074) ((m.log2 : Int) + e - 52) - e).toNat, by omega⟩
    have hround : nearestScaled s m e = exact s (roundQuotient m (Nat.pow 2 k)) (e + k) := by
      have hshift : (e + k - e).natAbs = k := by omega
      unfold nearestScaled
      dsimp only
      rw [if_neg hlifted, hk, hshift]
    have hm : m ≠ 0 := by
      rintro rfl
      simp at hlifted
      omega
    have hq : e + k ≤ e' := by
      have hpow : Nat.pow 2 (m.log2 + (e + 1074).toNat) < Nat.pow 2 (53 + (e' + 1074).toNat) := by
        rw [pow_two_add 53]
        exact lt_of_le_of_lt ((pow_log2_le_units hm e).trans h)
          (Nat.mul_lt_mul_of_pos_right hc.lt (pow_two_pos _))
      have := lt_of_pow_two_lt hpow
      have := hc.least_le
      omega
    obtain ⟨j, rfl⟩ : ∃ j : Nat, e' = e + k + j := ⟨(e' - (e + k)).toNat, by omega⟩
    rw [units_add m' (by omega)] at h ⊢
    have hle : m ≤ m' * Nat.pow 2 j * Nat.pow 2 k := by
      rw [units_add _ he] at h
      exact Nat.le_of_mul_le_mul_right h (pow_two_pos _)
    have hr := roundQuotient_le (pow_two_pos k) hle
    refine ⟨_, _, hround, ⟨by omega, ?_, ?_⟩, Nat.mul_le_mul_right _ hr⟩
    · refine roundQuotient_le (pow_two_pos k) ?_
      rw [← pow_two_add]
      exact Nat.lt_log2_self.le.trans (Nat.pow_le_pow_right (by decide) (by omega))
    · refine lt_of_le_of_lt (Nat.mul_le_mul_right _ hr) ?_
      have := hc.units_lt_beyond
      rwa [units_add m' (by omega)] at this

/-! ## Remainders -/

theorem canonical_of_ofFloat? {x : Float} {b : Binary64} (h : ofFloat? x = some b) :
    Canonical b.significand b.exponent := by
  have hc := isCanonical_unpack x.toModel.toBits.toBitVec
  rw [← ofUnpacked?_toModel] at h
  unfold Float.Model.unpack at h
  generalize Float.Model.UnpackedFloat.unpack .binary64 x.toModel.toBits.toBitVec = u at h hc
  cases u with
  | notANumber | infinity => simp [ofUnpacked?] at h
  | zero s =>
    cases h
    exact canonical_zero
  | finite s m e hm =>
    cases h
    exact hc

theorem units_significandAt (b : Binary64) {e : Int} (he : -1074 ≤ e) (h : e ≤ b.exponent) :
    units (b.significandAt e) e = units b.significand b.exponent := by
  rw [significandAt, ← units_add _ he]
  congr 1
  omega

/-- A remainder by a positive divisor is a double that does not exceed the divisor. -/
theorem modulo_exact {x y : Float} {a : Binary64} {m : Nat} {e : Int} (hx : ofFloat? x = some a)
    (hy : ofFloat? y = some ⟨false, m, e⟩) (hm : m ≠ 0) :
    ∃ r q, modulo x y = exact false r q ∧ Fits r q ∧ units r q ≤ units m e := by
  have ha : Canonical a.significand a.exponent := canonical_of_ofFloat? hx
  have hb : Canonical m e := canonical_of_ofFloat? hy
  have hq : -1074 ≤ min a.exponent e := by have := ha.least_le; have := hb.least_le; omega
  have hdivisor := units_significandAt ⟨false, m, e⟩ hq (min_le_right _ _)
  have hpos : 0 < significandAt ⟨false, m, e⟩ (min a.exponent e) :=
    Nat.mul_pos (Nat.pos_of_ne_zero hm) (pow_two_pos _)
  have hlt := Nat.mod_lt (a.significandAt (min a.exponent e)) hpos
  have hunits {r : Nat} (hr : r ≤ significandAt ⟨false, m, e⟩ (min a.exponent e)) :
      units r (min a.exponent e) ≤ units m e :=
    (Nat.mul_le_mul_right _ hr).trans_eq hdivisor
  unfold modulo
  simp only [hx, hy, if_neg hm]
  split
  · exact ⟨0, 0, rfl, ⟨by decide, Nat.zero_le _, (units_zero 0).trans_lt beyond_pos⟩,
      (units_zero 0).trans_le (Nat.zero_le _)⟩
  split
  · refine ⟨_, _, rfl, ⟨hq, ?_, lt_of_le_of_lt (hunits hlt.le) hb.units_lt_beyond⟩, hunits hlt.le⟩
    rcases le_total a.exponent e with h | h
    · rw [min_eq_left h]
      have hsame : a.significandAt a.exponent = a.significand := by simp [significandAt, Nat.pow_eq]
      exact (Nat.mod_le _ _).trans (hsame.trans_le ha.lt.le)
    · rw [min_eq_right h] at hlt ⊢
      have hsame : significandAt ⟨false, m, e⟩ e = m := by simp [significandAt, Nat.pow_eq]
      exact hlt.le.trans (hsame.trans_le hb.lt.le)
  · exact nearestScaled_exact false hq hb (hunits (Nat.sub_le _ _))

/-- What lies below the divisor is its own remainder. -/
theorem modulo_of_lt {r : Nat} {q : Int} (h : Fits r q) {y : Float} {m : Nat} {e : Int}
    (hy : ofFloat? y = some ⟨false, m, e⟩) (hlt : units r q < units m e) :
    modulo (exact false r q) y = exact false r q := by
  obtain ⟨r', q', ht, hq', hunits⟩ := ofFloat?_exact h false
  have hb : Canonical m e := canonical_of_ofFloat? hy
  have hm : m ≠ 0 := by
    rintro rfl
    rw [units_zero] at hlt
    exact Nat.not_lt_zero _ hlt
  have hq : -1074 ≤ min q' e := by have := hb.least_le; omega
  have hself := units_significandAt ⟨false, r', q'⟩ hq (min_le_left _ _)
  have hdivisor := units_significandAt ⟨false, m, e⟩ hq (min_le_right _ _)
  have hsmall : significandAt ⟨false, r', q'⟩ (min q' e)
      < significandAt ⟨false, m, e⟩ (min q' e) := by
    have hlt' := hlt
    rw [← hunits, ← hself, ← hdivisor] at hlt'
    exact Nat.lt_of_mul_lt_mul_right hlt'
  unfold modulo
  simp only [ht, hy, if_neg hm, Nat.mod_eq_of_lt hsmall, if_true]
  split
  · next hzero =>
    refine exact_congr (by decide) h.least_le ?_
    rw [hzero] at hself
    rw [← hunits, ← hself, units_zero, units_zero]
  · exact exact_congr hq h.least_le (hself.trans hunits)

end Whiteboard.Binary64
