import Whiteboard.Proofs.Scalar.Double
import Whiteboard.Proofs.Scalar.Shortest

/-!
# Products of doubles

A product is the exact one brought to 53 binary digits. It differs from the exact one by no more
than one part in `2 ^ 52`, and not at all if 53 digits are enough. Of the multiples of a positive
double the one by the greater count is therefore the greater, as long as it is finite
(`Double.ofInt_mul_lt_ofInt_mul`).
-/

namespace Whiteboard

namespace Binary64

open Float.Model (UnpackedFloat Format)
open Float.Model.UnpackedFloat

/-! ## Dropping digits -/

theorem mantissa_shiftRight (em : ExtendedMantissa) (k : Nat) :
    (em >>> k).mantissa = em.mantissa / 2 ^ k := by
  induction k with
  | zero => exact (Nat.div_one _).symm
  | succ k ih =>
    change (em >>> k).mantissa / 2 = _
    rw [ih, Nat.div_div_eq_div_mul, pow_succ]

/-- Digits that are zero leave no trace. -/
theorem shiftRight_mul_pow (m k : Nat) :
    (⟨m * 2 ^ k, false, false⟩ : ExtendedMantissa) >>> k = ⟨m, false, false⟩ := by
  induction k generalizing m with
  | zero =>
    rw [pow_zero, mul_one]
    rfl
  | succ k ih =>
    change ((⟨m * 2 ^ (k + 1), false, false⟩ : ExtendedMantissa) >>> k).shiftRightOne = _
    rw [pow_succ', ← mul_assoc, ih]
    simp [ExtendedMantissa.shiftRightOne]

theorem roundedMantissa_bounds (em : ExtendedMantissa) :
    em.mantissa ≤ em.roundedMantissa ∧ em.roundedMantissa ≤ em.mantissa + 1 := by
  obtain ⟨m, round, sticky⟩ := em
  cases round <;> cases sticky <;>
    simp only [ExtendedMantissa.roundedMantissa, ExtendedMantissa.accuracy,
      Accuracy.roundToNearestEven] <;> omega

/-- The place of the last digit that is kept of a magnitude `m * 2 ^ e`. -/
def lastPlace (m : Nat) (e : Int) : Int := max e (max (m.log2 + e - 52) (-1074))

/-- The digits up to that place, rounded. -/
def kept (m : Nat) (e : Int) : Nat :=
  ((⟨m, false, false⟩ : ExtendedMantissa) >>> (lastPlace m e - e).toNat).roundedMantissa

theorem shiftToTargetExponent_exact (m : Nat) (e : Int) :
    shiftToTargetExponent Format.binary64 m e .exact
      = ((⟨m, false, false⟩ : ExtendedMantissa) >>> (lastPlace m e - e).toNat, lastPlace m e) := by
  have hmin : Format.binary64.minExponent = -1074 := by decide
  have hbits : (Format.binary64.mantissaBits : Int) = 53 := by decide
  have htarget : Format.binary64.targetExponent (Float.Model.totalExponent m e)
      = max (m.log2 + e - 52) (-1074) := by
    rw [Format.targetExponent, hmin, hbits, Float.Model.totalExponent]
    congr 1
    omega
  have hshift : (max (m.log2 + e - 52) (-1074) - e).toNat = (lastPlace m e - e).toNat := by
    unfold lastPlace
    omega
  have hplace : e + (lastPlace m e - e).toNat = lastPlace m e := by
    unfold lastPlace
    omega
  rw [shiftToTargetExponent, htarget, shiftToExponent, hshift, hplace]
  rfl

theorem log2_le_of_lt {m : Nat} (hm : m < 2 ^ 53) : m.log2 ≤ 52 := by
  by_cases hz : m = 0
  · simp [hz]
  · exact Nat.lt_succ_iff.mp ((Nat.log2_lt hz).mpr hm)

/-- What has 53 digits keeps them. -/
theorem lastPlace_of_lt {m : Nat} {e : Int} (he : -1074 ≤ e) (hm : m < 2 ^ 53) :
    lastPlace m e = e := by
  have := log2_le_of_lt hm
  unfold lastPlace
  omega

/-! ## Rounding -/

section Rounds

variable {m n w size a b : Nat} {e : Int}

theorem kept_mul_pow {k : Nat} (hk : lastPlace (n * 2 ^ k) e = e + k) :
    kept (n * 2 ^ k) e = n := by
  have hplace : (lastPlace (n * 2 ^ k) e - e).toNat = k := by omega
  rw [kept, hplace, shiftRight_mul_pow]
  rfl

/-- Nothing is lost of what 53 digits are enough for. -/
theorem units_kept_mul_pow (hpos : 0 < n) (hn : n < 2 ^ 53) (he : -1074 ≤ e + w) :
    units (kept (n * 2 ^ w) e) (lastPlace (n * 2 ^ w) e) = units n (e + w) := by
  have hlog : (n * 2 ^ w).log2 = n.log2 + w := log2_mul_pow hpos.ne' w
  have hdigits := log2_le_of_lt hn
  obtain ⟨k, hk⟩ : ∃ k : Nat, lastPlace (n * 2 ^ w) e = e + k :=
    ⟨(lastPlace (n * 2 ^ w) e - e).toNat, by unfold lastPlace; omega⟩
  have hkw : k ≤ w := by
    unfold lastPlace at hk
    omega
  obtain ⟨v, rfl⟩ := Nat.exists_eq_add_of_le' hkw
  have hleast : -1074 ≤ e + k := by
    unfold lastPlace at hk
    omega
  rw [pow_add, ← mul_assoc] at hk ⊢
  rw [kept_mul_pow hk, hk, ← Nat.pow_eq, ← units_add n hleast v]
  congr 1
  omega

theorem kept_bounds {k : Nat} (hk : lastPlace m e = e + k) :
    kept m e ≤ 2 ^ 53 ∧ kept m e * 2 ^ k ≤ m + 2 ^ k ∧ m ≤ (kept m e + 1) * 2 ^ k ∧
      (2 ^ 52 * 2 ^ k ≤ m → 2 ^ 52 ≤ kept m e) := by
  have hplace : (lastPlace m e - e).toNat = k := by omega
  obtain ⟨hlow, hhigh⟩ : m / 2 ^ k ≤ kept m e ∧ kept m e ≤ m / 2 ^ k + 1 := by
    have hbounds := roundedMantissa_bounds ((⟨m, false, false⟩ : ExtendedMantissa) >>> k)
    rw [mantissa_shiftRight] at hbounds
    rwa [kept, hplace]
  have hpow : 0 < 2 ^ k := Nat.two_pow_pos k
  refine ⟨?_, ?_, ?_, fun hm => ?_⟩
  · have hupper : m < 2 ^ 53 * 2 ^ k := by
      have hlog : m.log2 + 1 ≤ 53 + k := by
        unfold lastPlace at hk
        omega
      rw [← pow_add]
      exact Nat.lt_log2_self.trans_le (Nat.pow_le_pow_right (by decide) hlog)
    exact hhigh.trans ((Nat.div_lt_iff_lt_mul hpow).mpr hupper)
  · calc kept m e * 2 ^ k ≤ (m / 2 ^ k + 1) * 2 ^ k := Nat.mul_le_mul_right _ hhigh
      _ = m / 2 ^ k * 2 ^ k + 2 ^ k := Nat.succ_mul _ _
      _ ≤ m + 2 ^ k := Nat.add_le_add_right (Nat.div_mul_le_self m _) _
  · calc m ≤ m / 2 ^ k * 2 ^ k + 2 ^ k := (Nat.lt_div_mul_add hpow).le
      _ = (m / 2 ^ k + 1) * 2 ^ k := (Nat.succ_mul _ _).symm
      _ ≤ (kept m e + 1) * 2 ^ k := Nat.mul_le_mul_right _ (Nat.add_le_add_right hlow 1)
  · exact ((Nat.le_div_iff_mul_le hpow).mpr hm).trans hlow

/-- What is kept of a positive magnitude of `size` units of the least positive double, and how far
it may be from it. The digits of the magnitude may reach below these units. -/
structure Rounds (size m : Nat) (e : Int) : Prop where
  least_le : -1074 ≤ e
  le : m ≤ 2 ^ 53
  full : e = -1074 ∨ 2 ^ 52 ≤ m
  error : |(units m e : Int) - size| * 2 ^ 52 ≤ size

theorem units_of_eq {q : Nat} (m : Nat) (h : e + 1074 = q) : units m e = m * 2 ^ q := by
  rw [units, h]
  rfl

theorem rounds_kept (hpos : 0 < m) (hsize : m * 2 ^ b = size * 2 ^ a) (he : e + 1074 + a = b)
    (hfull : 2 ^ 52 ≤ m ∨ b ≤ a) : Rounds size (kept m e) (lastPlace m e) := by
  have hlog : 2 ^ 52 ≤ m → 52 ≤ m.log2 := (Nat.le_log2 hpos.ne').mpr
  obtain ⟨q, hq⟩ : ∃ q : Nat, lastPlace m e + 1074 = q :=
    ⟨(lastPlace m e + 1074).toNat, by unfold lastPlace; omega⟩
  obtain ⟨k, hk⟩ : ∃ k : Nat, lastPlace m e = e + k :=
    ⟨(lastPlace m e - e).toNat, by unfold lastPlace; omega⟩
  have hplaces : k + b = q + a := by omega
  obtain ⟨hle, habove, hbelow, hkept⟩ := kept_bounds hk
  have hcases : lastPlace m e = -1074 ∨ 2 ^ 52 * 2 ^ k ≤ m := by
    have hcases : lastPlace m e = -1074 ∨ m.log2 = 52 + k := by
      unfold lastPlace at hk ⊢
      rcases hfull with hm | hab
      · have := hlog hm
        omega
      · omega
    refine hcases.imp_right fun hlog => ?_
    rw [← pow_add, ← hlog]
    exact Nat.log2_self_le hpos.ne'
  refine ⟨by omega, hle, hcases.imp_right hkept, ?_⟩
  rcases hcases with hleast | hfar
  · -- the digits that are kept count the units, and those below them are zero
    obtain rfl : q = 0 := by omega
    have hm : m = size * 2 ^ k := by
      rw [show a = k + b by omega, pow_add, ← mul_assoc] at hsize
      exact Nat.eq_of_mul_eq_mul_right (Nat.two_pow_pos b) hsize
    subst hm
    rw [kept_mul_pow hk, units_of_eq size hq, pow_zero, mul_one, sub_self, abs_zero, zero_mul]
    exact Int.natCast_nonneg _
  · have hscale (x : Nat) : x * 2 ^ k * 2 ^ b = x * 2 ^ q * 2 ^ a := by
      rw [mul_assoc, mul_assoc, ← pow_add, ← pow_add, hplaces]
    have hcancel {x y : Nat} (h : x * 2 ^ a ≤ y * 2 ^ a) : x ≤ y :=
      Nat.le_of_mul_le_mul_right h (Nat.two_pow_pos a)
    have hfar : 2 ^ 52 * 2 ^ q ≤ size := by
      apply hcancel
      rw [← hscale, ← hsize]
      exact Nat.mul_le_mul_right _ hfar
    have habove : kept m e * 2 ^ q ≤ size + 1 * 2 ^ q := by
      apply hcancel
      rw [← hscale, add_mul, ← hscale, ← hsize, ← add_mul, one_mul]
      exact Nat.mul_le_mul_right _ habove
    have hbelow : size ≤ (kept m e + 1) * 2 ^ q := by
      apply hcancel
      rw [← hscale, ← hsize]
      exact Nat.mul_le_mul_right _ hbelow
    have herror : |((kept m e * 2 ^ q : Nat) : Int) - size| ≤ (2 ^ q : Nat) := by
      rw [one_mul] at habove
      rw [Nat.succ_mul] at hbelow
      rw [abs_le]
      omega
    rw [units_of_eq _ hq]
    calc |((kept m e * 2 ^ q : Nat) : Int) - size| * 2 ^ 52 ≤ (2 ^ q : Nat) * 2 ^ 52 :=
          mul_le_mul_of_nonneg_right herror (by decide)
      _ = ((2 ^ 52 * 2 ^ q : Nat) : Int) := by push_cast; ring
      _ ≤ size := by exact_mod_cast hfar

theorem units_le_units {m' : Nat} {e' : Int} (hm : m ≤ m') (he : e ≤ e') :
    units m e ≤ units m' e' :=
  Nat.mul_le_mul hm (Nat.pow_le_pow_right (by decide) (by omega))

theorem units_carry (he : -1074 ≤ e) : units (2 ^ 53) e = units (2 ^ 52) (e + 1) :=
  (units_add (2 ^ 52) he 1).symm

/-- A second shift only takes in the carry. -/
theorem exists_roundWithAccuracy (hpos : 0 < size) (h : Rounds size (kept m e) (lastPlace m e))
    (s : Sign) :
    ∃ m' e' hm', roundWithAccuracy Format.binary64 s m e .exact = .finite s m' e' hm' ∧
      (e' ≤ 971 → Canonical m' e') ∧ (e' = -1074 ∨ 2 ^ 52 ≤ m') ∧
      units m' e' = units (kept m e) (lastPlace m e) := by
  obtain ⟨hleast, hle, hfull, herror⟩ := h
  have hround : roundWithAccuracy Format.binary64 s m e .exact
      = match shiftToTargetExponent Format.binary64 (kept m e) (lastPlace m e) .exact with
        | (em, e') =>
          if h : em.mantissa = 0 then .zero s
          else .finite s em.mantissa e' (Nat.pos_of_ne_zero h) := by
    unfold roundWithAccuracy
    rw [shiftToTargetExponent_exact]
    rfl
  rw [hround, shiftToTargetExponent_exact]
  generalize hplace : lastPlace m e = place at *
  rcases hle.lt_or_eq with hlt | hcarry
  · have hne : kept m e ≠ 0 := by
      intro hzero
      rw [hzero, units_zero, Int.natCast_zero, zero_sub, abs_neg, Nat.abs_cast] at herror
      omega
    have hlast := lastPlace_of_lt hleast hlt
    have hkept : (⟨kept m e, false, false⟩ : ExtendedMantissa)
        >>> (lastPlace (kept m e) place - place).toNat = ⟨kept m e, false, false⟩ := by
      rw [hlast, sub_self]
      rfl
    rw [hkept, hlast]
    exact ⟨kept m e, place, Nat.pos_of_ne_zero hne, dif_neg hne,
      fun htop => ⟨hleast, htop, hlt, hfull⟩, hfull, rfl⟩
  · have hlast : lastPlace (2 ^ 53) place = place + 1 := by
      rw [lastPlace, Nat.log2_two_pow]
      omega
    have hkept : (⟨2 ^ 53, false, false⟩ : ExtendedMantissa) >>> (place + 1 - place).toNat
        = ⟨2 ^ 52, false, false⟩ := by
      rw [add_sub_cancel_left]
      rfl
    rw [hcarry, hlast, hkept]
    refine ⟨2 ^ 52, place + 1, by decide, dif_neg (by decide), fun htop => ?_, .inr le_rfl, ?_⟩
    · exact ⟨by omega, htop, by decide, .inr le_rfl⟩
    · exact (units_carry hleast).symm

/-- Packing what no double reaches yields infinity. -/
theorem rank?_round (hpos : 0 < size) (h : Rounds size (kept m e) (lastPlace m e)) (s : Sign) :
    unpackedRank? (Float.Model.pack (roundWithAccuracy Format.binary64 s m e .exact)).unpack
      = some (s.apply (min (units (kept m e) (lastPlace m e)) beyond : Nat)) := by
  obtain ⟨m', e', hm', hround, hcanonical, hfull, hunits⟩ := exists_roundWithAccuracy hpos h s
  rw [hround, ← hunits]
  by_cases htop : e' ≤ 971
  · have hc := hcanonical htop
    rw [unpack_pack (show IsCanonical (.finite s m' e' hm') from hc),
       min_eq_left hc.units_lt_beyond.le]
    rfl
  · have hbeyond : beyond ≤ units m' e' := by
      unfold beyond
      rw [Nat.pow_eq, units_carry (by decide)]
      exact units_le_units (hfull.resolve_left (by omega)) (by omega)
    have hpack : pack Format.binary64 (.finite s m' e' hm')
        = pack Format.binary64 (.infinity s) := by
      refine if_pos ?_
      rw [exponentBias_eq]
      change 2048 ≤ (e' + 1023 + 52).toNat + 1
      omega
    have hunpack : (Float.Model.pack (.finite s m' e' hm')).unpack
        = (Float.Model.pack (.infinity s)).unpack := congrArg (unpack Format.binary64) hpack
    rw [hunpack, unpack_pack (show IsCanonical (.infinity s) from trivial),
      min_eq_right hbeyond]
    rfl

end Rounds

/-! ## Products -/

theorem unpack_of_ofFloat? {x : Float} {m : Nat} {e : Int} (h : ofFloat? x = some ⟨false, m, e⟩)
    (hm : 0 < m) : x.toModel.unpack = .finite .positive m e hm := by
  rw [← ofUnpacked?_toModel] at h
  cases hu : x.toModel.unpack with
  | notANumber | infinity => simp [hu, ofUnpacked?] at h
  | zero s =>
    simp only [hu, ofUnpacked?, Option.some.injEq, mk.injEq] at h
    omega
  | finite s m' e' hm' =>
    simp only [hu, ofUnpacked?, Option.some.injEq, mk.injEq] at h
    obtain ⟨hs, rfl, rfl⟩ := h
    cases s with
    | negative => contradiction
    | positive => rfl

/-- A positive count that is a double, brought to its full length. -/
theorem exists_ofFloat?_ofInt {n : Nat} (hpos : 0 < n) (hn : n < 2 ^ 53) :
    ∃ w : Nat, ofFloat? (ofInt n) = some ⟨false, n * 2 ^ w, -w⟩ ∧ 2 ^ 52 ≤ n * 2 ^ w := by
  have hlog := log2_le_of_lt hn
  obtain ⟨w, hw⟩ : ∃ w : Nat, n.log2 + w = 52 := ⟨52 - n.log2, by omega⟩
  have hfull : (n * 2 ^ w).log2 = 52 := (log2_mul_pow hpos.ne' w).trans hw
  have hne : n * 2 ^ w ≠ 0 := (Nat.mul_pos hpos (Nat.two_pow_pos w)).ne'
  have hlow : 2 ^ 52 ≤ n * 2 ^ w := (Nat.le_log2 hne).mp hfull.ge
  have hhigh : n * 2 ^ w < 2 ^ 53 := (Nat.log2_lt hne).mp (by omega)
  refine ⟨w, ?_, hlow⟩
  have hsign : decide ((n : Int) < 0) = false := decide_eq_false (by omega)
  have hexact : ofInt n = exact false (n * 2 ^ w) (-w) :=
    calc ofInt n = exact (decide ((n : Int) < 0)) (n : Int).natAbs 0 := ofInt_of_lt hn
      _ = exact false n (-w + w) := by rw [hsign, Int.natAbs_natCast, neg_add_cancel]
      _ = exact false (n * 2 ^ w) (-w) := (exact_mul_pow false n w (-w)).symm
  rw [hexact]
  exact ofFloat?_exact_of_canonical false ⟨by omega, by omega, hhigh, .inr hlow⟩

section Products

variable {x y : Float} {n m : Nat} {e : Int}

theorem unpack_mul (x y : Float) : (x * y).toModel.unpack = (Float.Model.pack
    (mul Format.binary64 x.toModel.unpack y.toModel.unpack)).unpack := rfl

theorem unpack_ofInt_zero : (ofInt 0).toModel.unpack = .zero .positive := by
  rfl

theorem unpack_ofInt_zero_mul (hx : ofFloat? x = some ⟨false, m, e⟩) (hm : 0 < m) :
    (ofInt 0 * x).toModel.unpack = .zero .positive := by
  rw [unpack_mul, unpack_ofInt_zero, unpack_of_ofFloat? hx hm, mul]
  exact unpack_pack (show IsCanonical (.zero _) from trivial)

/-- A positive multiple is rounded once, and cut off at the end of the range. -/
theorem exists_rounds_ofInt_mul (hpos : 0 < n) (hn : n < 2 ^ 53)
    (hx : ofFloat? x = some ⟨false, m, e⟩) (hm : 0 < m) : ∃ w : Nat,
      let digits := kept (n * 2 ^ w * m) (-w + e)
      let place := lastPlace (n * 2 ^ w * m) (-w + e)
      Rounds (n * units m e) digits place ∧
        rank? (ofInt n * x) = some ((min (units digits place) beyond : Nat) : Int) := by
  obtain ⟨w, hcount, hfull⟩ := exists_ofFloat?_ofInt hpos hn
  have hleast : -1074 ≤ e := (canonical_of_ofFloat? hx).least_le
  obtain ⟨b, hb⟩ : ∃ b : Nat, e + 1074 = b := ⟨(e + 1074).toNat, by omega⟩
  have hcount' : 0 < n * 2 ^ w := Nat.mul_pos hpos (Nat.two_pow_pos w)
  have hsize : n * 2 ^ w * m * 2 ^ b = n * units m e * 2 ^ w := by
    rw [units_of_eq m hb]
    ring
  have hrounds := rounds_kept (e := -w + e) (Nat.mul_pos hcount' hm) hsize (by omega)
    (.inl (hfull.trans (Nat.le_mul_of_pos_right _ hm)))
  refine ⟨w, hrounds, ?_⟩
  unfold rank?
  rw [unpack_mul, unpack_of_ofFloat? hcount hcount', unpack_of_ofFloat? hx hm]
  exact rank?_round (Nat.mul_pos hpos (units_pos hm e)) hrounds .positive

/-- The rank of a multiple, but for the range, and how far it may be from the exact one. -/
theorem exists_rank?_ofInt_mul (hn : n < 2 ^ 53) (hx : ofFloat? x = some ⟨false, m, e⟩)
    (hm : 0 < m) : ∃ r : Nat, rank? (ofInt n * x) = some ((min r beyond : Nat) : Int) ∧
      |(r : Int) - (n * units m e : Nat)| * 2 ^ 52 ≤ (n * units m e : Nat) := by
  rcases Nat.eq_zero_or_pos n with rfl | hpos
  · refine ⟨0, ?_, by simp⟩
    rw [Int.natCast_zero, rank?, unpack_ofInt_zero_mul hx hm]
    simp [unpackedRank?]
  · obtain ⟨w, hrounds, hrank⟩ := exists_rounds_ofInt_mul hpos hn hx hm
    exact ⟨_, hrank, hrounds.error⟩

theorem exists_ofFloat?_of_mul (hpos : 0 < n) (hn : n < 2 ^ 53)
    (h : (ofInt n * x).isFinite = true) : ∃ b, ofFloat? x = some b := by
  obtain ⟨w, hcount, -⟩ := exists_ofFloat?_ofInt hpos hn
  obtain ⟨b, hb⟩ := isFinite_iff.mp h
  rw [← ofUnpacked?_toModel, unpack_mul,
    unpack_of_ofFloat? hcount (Nat.mul_pos hpos (Nat.two_pow_pos w))] at hb
  rw [← ofUnpacked?_toModel]
  cases hu : x.toModel.unpack with
  | notANumber =>
    rw [hu] at hb
    change ofUnpacked? (Float.Model.pack .notANumber).unpack = some b at hb
    rw [unpack_pack (show IsCanonical .notANumber from trivial)] at hb
    cases hb
  | infinity s =>
    rw [hu, mul, unpack_pack (show IsCanonical (.infinity _) from trivial)] at hb
    cases hb
  | zero s => exact ⟨_, rfl⟩
  | finite s m e hm => exact ⟨_, rfl⟩

theorem isFinite_iff_of_rank? {r : Nat} (h : rank? x = some ((min r beyond : Nat) : Int)) :
    x.isFinite = true ↔ r < beyond := by
  rw [isFinite_iff]
  constructor
  · rintro ⟨b, hb⟩
    have hrank := h.symm.trans (rank?_of_ofFloat? hb)
    have hbeyond := (canonical_of_ofFloat? hb).units_lt_beyond
    rw [Option.some.injEq] at hrank
    split at hrank <;> omega
  · intro hr
    rw [← ofUnpacked?_toModel]
    unfold rank? at h
    cases hu : x.toModel.unpack with
    | notANumber => simp [hu, unpackedRank?] at h
    | infinity s =>
      have := beyond_pos
      cases s <;> simp only [hu, unpackedRank?, Sign.apply, Option.some.injEq] at h <;> omega
    | zero s => exact ⟨_, rfl⟩
    | finite s m e hm => exact ⟨_, rfl⟩

/-- The greater multiple stays the greater one, unless it is infinite: `2 ^ 51` counts are further
apart than the errors of their multiples. -/
theorem ofInt_mul_lt_ofInt_mul {i j : Nat} (hx : ofInt 0 < x) (hij : i < j) (hj : j ≤ 2 ^ 51)
    (h : (ofInt j * x).isFinite = true) :
    (ofInt i * x).isFinite = true ∧ ofInt i * x < ofInt j * x := by
  obtain ⟨b, hb⟩ := exists_ofFloat?_of_mul (Nat.zero_lt_of_lt hij) (by omega) h
  obtain ⟨hsign, hne⟩ := exists_of_zero_lt hx hb
  rw [hsign] at hb
  have hpos := Nat.pos_of_ne_zero hne
  have hunits := units_pos hpos b.exponent
  obtain ⟨r, hr, herror⟩ := exists_rank?_ofInt_mul (n := i) (by omega) hb hpos
  obtain ⟨r', hr', herror'⟩ := exists_rank?_ofInt_mul (n := j) (by omega) hb hpos
  generalize units b.significand b.exponent = size at hunits herror herror'
  have hlt : r < r' := by
    have hbelow := le_abs_self ((r : Int) - (i * size : Nat))
    have habove := neg_abs_le ((r' : Int) - (j * size : Nat))
    have hnext : (i + 1) * size ≤ j * size := Nat.mul_le_mul_right _ hij
    have hmost : j * size ≤ 2 ^ 51 * size := Nat.mul_le_mul_right _ hj
    rw [Nat.succ_mul] at hnext
    generalize i * size = x at *
    generalize j * size = y at *
    omega
  have hfinite : r' < beyond := (isFinite_iff_of_rank? hr').mp h
  refine ⟨(isFinite_iff_of_rank? hr).mpr (hlt.trans hfinite), lt_iff.mpr ⟨_, _, hr, hr', ?_⟩⟩
  omega

theorem exists_ofFloat?_of_rank? {r : Nat} (hpos : 0 < r) (hr : r < beyond)
    (h : rank? x = some (r : Int)) : ∃ m e, ofFloat? x = some ⟨false, m, e⟩ ∧ units m e = r := by
  have hfinite : x.isFinite = true :=
    (isFinite_iff_of_rank? (by rw [min_eq_left hr.le, h])).mpr hr
  obtain ⟨⟨s, m, e⟩, hb⟩ := isFinite_iff.mp hfinite
  have hrank := h.symm.trans (rank?_of_ofFloat? hb)
  rw [Option.some.injEq] at hrank
  cases s with
  | true =>
    rw [if_pos rfl] at hrank
    omega
  | false =>
    rw [if_neg Bool.false_ne_true] at hrank
    exact ⟨m, e, hb, Int.ofNat_inj.mp hrank.symm⟩

/-- Positive doubles of one rank are the same. -/
theorem eq_of_rank? {r : Nat} (hpos : 0 < r) (hr : r < beyond) (hx : rank? x = some (r : Int))
    (hy : rank? y = some (r : Int)) : x = y := by
  obtain ⟨m, e, hfloat, hunits⟩ := exists_ofFloat?_of_rank? hpos hr hx
  obtain ⟨m', e', hfloat', hunits'⟩ := exists_ofFloat?_of_rank? hpos hr hy
  obtain ⟨rfl, rfl⟩ := (canonical_of_ofFloat? hfloat).eq_of_units_eq (canonical_of_ofFloat? hfloat')
    (hunits.trans hunits'.symm)
  exact eq_of_ofFloat? hfloat hfloat'

/-- A product of counts that is a double itself. -/
theorem ofInt_mul_ofInt {i j : Nat} (hi : i < 2 ^ 53) (hpos : 0 < j) (hj : j < 2 ^ 53)
    (hij : i * j < 2 ^ 53) : ofInt i * ofInt j = ofInt ((i * j : Nat) : Int) := by
  obtain ⟨v, hfloat, -⟩ := exists_ofFloat?_ofInt hpos hj
  have hj' : 0 < j * 2 ^ v := Nat.mul_pos hpos (Nat.two_pow_pos v)
  rcases Nat.eq_zero_or_pos i with rfl | hi'
  · rw [zero_mul, Int.natCast_zero]
    refine eq_of_ofFloat? (b := ⟨false, 0, -1074⟩) ?_ ?_
    · rw [← ofUnpacked?_toModel, unpack_ofInt_zero_mul hfloat hj']
      rfl
    · rw [← ofUnpacked?_toModel, unpack_ofInt_zero]
      rfl
  have hprod : 0 < i * j := Nat.mul_pos hi' hpos
  have hrank : rank? (ofInt ((i * j : Nat) : Int)) = some ((units (i * j) 0 : Nat) : Int) := by
    obtain ⟨u, hrank, hunits⟩ := rank?_ofInt (i := (i * j : Nat)) hij
    rw [hrank, if_neg (by omega), ← hunits, Int.natAbs_natCast]
  have hbeyond : units (i * j) 0 < beyond := units_lt_beyond hij (by decide)
  obtain ⟨w, -, hmul⟩ := exists_rounds_ofInt_mul hi' hi hfloat hj'
  have hexact : i * 2 ^ w * (j * 2 ^ v) = i * j * 2 ^ (w + v) := by ring
  have hplace : (-w + -v : Int) + (w + v : Nat) = 0 := by omega
  rw [hexact, units_kept_mul_pow hprod hij (by omega), hplace, min_eq_left hbeyond.le] at hmul
  exact eq_of_rank? (units_pos hprod 0) hbeyond hmul hrank

end Products

theorem holdsInt_of_natAbs_le {i j : Int} (h : i.natAbs ≤ j.natAbs) (hj : holdsInt j = true) :
    holdsInt i = true := decide_eq_true (h.trans_lt (of_decide_eq_true hj))

end Binary64

namespace Double

theorem value_ofInt (i : Int) : (Scalar.ofInt i : Double).value = Binary64.ofInt i :=
  value_ofFloat _

/-- The greater multiple of a positive double is the greater one, unless it is infinite. -/
theorem ofInt_mul_lt_ofInt_mul {x : Double} {i j : Nat} (hx : 0 < x) (hij : i < j)
    (hj : j ≤ 2 ^ 51) (h : Scalar.isFinite (Scalar.ofInt j * x) = true) :
    Scalar.isFinite (Scalar.ofInt i * x) = true ∧ Scalar.ofInt i * x < Scalar.ofInt j * x := by
  change (Scalar.ofInt j * x).value.isFinite = true at h
  change (Scalar.ofInt i * x).value.isFinite = true ∧ _
  rw [lt_iff_value, value_zero] at hx
  rw [value_mul, value_ofInt] at h
  rw [lt_iff_value, value_mul, value_mul, value_ofInt, value_ofInt]
  exact Binary64.ofInt_mul_lt_ofInt_mul hx hij hj h

theorem holdsInt_of_lt {i : Int} (h : i.natAbs < 2 ^ 53) : Scalar.holdsInt Double i = true :=
  Binary64.holdsInt_of_natAbs_le (j := 2 ^ 53) (by omega) (by decide +kernel)

theorem pos_of_ofInt_pos {i : Int} (hi : i.natAbs < 2 ^ 53) (h : (0 : Double) < Scalar.ofInt i) :
    0 < i := by
  obtain ⟨u, hu, hunits⟩ := Binary64.rank?_ofInt hi
  rw [lt_iff_value, value_zero, value_ofInt, Binary64.lt_iff, Binary64.rank?_zero, hu] at h
  obtain ⟨j, k, hj, hk, hlt⟩ := h
  cases hj
  cases hk
  split at hlt
  · omega
  · have hne : i.natAbs ≠ 0 := by
      intro hzero
      rw [hzero, Binary64.units_zero] at hunits
      omega
    omega

theorem ofInt_mul_ofInt {i j : Nat} (hi : i < 2 ^ 53) (hpos : 0 < j) (hj : j < 2 ^ 53)
    (hij : i * j < 2 ^ 53) :
    (Scalar.ofInt i * Scalar.ofInt j : Double) = Scalar.ofInt ((i * j : Nat) : Int) := by
  change ofFloat ((Scalar.ofInt i : Double).value * (Scalar.ofInt j : Double).value) = ofFloat _
  rw [value_ofInt, value_ofInt, Binary64.ofInt_mul_ofInt hi hpos hj hij]

end Double

end Whiteboard
