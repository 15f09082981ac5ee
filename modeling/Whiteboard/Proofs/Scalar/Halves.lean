import Whiteboard.Proofs.Scalar.Product

/-!
# Halves of counts

A result that 53 binary digits are enough for is exact: the half of a count is, and so is the
difference of a count and such a half (`Binary64.ofInt_sub_half`). Of what a factor does to the
magnitude of a double a lower bound is left, whatever the rounding (`Binary64.exists_rank?_mul`).
-/

namespace Whiteboard

namespace Binary64

open Float.Model (UnpackedFloat Format totalExponent)
open Float.Model.UnpackedFloat

/-! ## Exact results -/

/-- What 53 digits are enough for is not changed by rounding. -/
theorem rank?_round_mul_pow {n w : Nat} {e : Int} (hpos : 0 < n) (hn : n < 2 ^ 53)
    (he : -1074 ≤ e) (htop : e + w ≤ 971) (hfull : 2 ^ 52 ≤ n * 2 ^ w) (s : Sign) :
    unpackedRank? (Float.Model.pack
        (roundWithAccuracy Format.binary64 s (n * 2 ^ w) e .exact)).unpack
      = some (s.apply (units n (e + w) : Nat)) := by
  obtain ⟨b, hb⟩ : ∃ b : Nat, e + 1074 = b := ⟨(e + 1074).toNat, by omega⟩
  have hdigits : 0 < n * 2 ^ w := Nat.mul_pos hpos (Nat.two_pow_pos w)
  have hsize : n * 2 ^ w * 2 ^ b = n * 2 ^ w * 2 ^ b * 2 ^ 0 := by rw [pow_zero, mul_one]
  have hrounds := rounds_kept hdigits hsize (by simpa using hb) (.inl hfull)
  rw [rank?_round (Nat.mul_pos hdigits (Nat.two_pow_pos b)) hrounds,
    units_kept_mul_pow hpos hn (by omega), min_eq_left (units_lt_beyond hn htop).le]

theorem targetExponent_binary64 (t : Int) :
    Format.binary64.targetExponent t = max (t - 53) (-1074) := by
  have hmin : Format.binary64.minExponent = -1074 := by decide
  rw [Format.targetExponent, hmin]
  rfl

/-- A value with few digits is first brought to the full length. -/
theorem rank?_round_of_lt {n w : Nat} {e : Int} (hpos : 0 < n) (hn : n < 2 ^ 53)
    (he : -1022 ≤ e) (htop : e + w ≤ 971) (s : Sign) :
    unpackedRank? (Float.Model.pack (UnpackedFloat.round Format.binary64 s (n * 2 ^ w) e)).unpack
      = some (s.apply (units n (e + w) : Nat)) := by
  obtain ⟨v, hv⟩ : ∃ v : Nat,
    (e - max (totalExponent (n * 2 ^ w) e - 53) (-1074)).toNat = v := ⟨_, rfl⟩
  have hround : UnpackedFloat.round Format.binary64 s (n * 2 ^ w) e
      = roundWithAccuracy Format.binary64 s (n * 2 ^ (w + v)) (e - v) .exact := by
    rw [UnpackedFloat.round, targetExponent_binary64, decreaseExponent, hv, Nat.shiftLeft_eq,
      mul_assoc, ← pow_add]
  have hdigits : n * 2 ^ (w + v) ≠ 0 := (Nat.mul_pos hpos (Nat.two_pow_pos _)).ne'
  have hlog : (n * 2 ^ (w + v)).log2 = (n * 2 ^ w).log2 + v := by
    rw [pow_add, ← mul_assoc]
    exact log2_mul_pow (Nat.mul_pos hpos (Nat.two_pow_pos w)).ne' v
  rw [totalExponent] at hv
  have hfull : 2 ^ 52 ≤ n * 2 ^ (w + v) := (Nat.le_log2 hdigits).mp (by omega)
  have hplace : e - v + (w + v : Nat) = e + w := by omega
  rw [hround, rank?_round_mul_pow hpos hn (by omega) (by omega) hfull, hplace]

theorem rank?_normalize {d : Int} {n w : Nat} {e : Int} (hpos : 0 < n) (hn : n < 2 ^ 53)
    (he : -1022 ≤ e) (htop : e + w ≤ 971) (s : Sign) (hd : d = s.apply (n * 2 ^ w : Nat)) :
    unpackedRank? (Float.Model.pack
        (UnpackedFloat.normalize Format.binary64 d e .positive)).unpack
      = some (s.apply (units n (e + w) : Nat)) := by
  have hdigits : 0 < n * 2 ^ w := Nat.mul_pos hpos (Nat.two_pow_pos w)
  rw [← rank?_round_of_lt hpos hn he htop s, hd]
  generalize n * 2 ^ w = m at hdigits
  cases s with
  | negative =>
    have hlt : compare (Sign.negative.apply m) 0 = .lt :=
      compare_lt_iff_lt.mpr (by simp only [Sign.apply]; omega)
    rw [UnpackedFloat.normalize, hlt, Sign.apply, neg_neg, Int.toNat_natCast]
  | positive =>
    have hgt : compare (Sign.positive.apply m) 0 = .gt :=
      compare_gt_iff_gt.mpr (by simp only [Sign.apply]; omega)
    rw [UnpackedFloat.normalize, hgt, Sign.apply, Int.toNat_natCast]

/-! ## Halves -/

/-- A positive count that is a double, unpacked to its full length. -/
theorem exists_unpack_ofInt {n : Nat} (hpos : 0 < n) (hn : n < 2 ^ 53) :
    ∃ (w : Nat) (h : 0 < n * 2 ^ w), w ≤ 52 ∧ (n * 2 ^ w).log2 = 52 ∧
      (ofInt n).toModel.unpack = .finite .positive (n * 2 ^ w) (-w) h := by
  obtain ⟨w, hcount, hfull⟩ := exists_ofFloat?_ofInt hpos hn
  have hlog : (n * 2 ^ w).log2 = 52 := log2_of_full (canonical_of_ofFloat? hcount).lt hfull
  have hw : n.log2 + w = 52 := (log2_mul_pow hpos.ne' w).symm.trans hlog
  exact ⟨w, _, by omega, hlog, unpack_of_ofFloat? hcount (Nat.mul_pos hpos (Nat.two_pow_pos w))⟩

theorem unpack_ofInt_two :
    (ofInt 2).toModel.unpack = .finite .positive (2 ^ 52) (-51) (by decide) := by
  rfl

theorem unpack_div (x y : Float) : (x / y).toModel.unpack = (Float.Model.pack
    (div Format.binary64 x.toModel.unpack y.toModel.unpack)).unpack := rfl

theorem rank?_ofInt_div_two {k : Nat} (hpos : 0 < k) (hk : k < 2 ^ 53) :
    rank? (ofInt k / ofInt 2) = some (units k (-1) : Nat) := by
  obtain ⟨w, hdigits, hw, hlog, hunpack⟩ := exists_unpack_ofInt hpos hk
  have hcore : divCore Format.binary64 (k * 2 ^ w) (-w) (2 ^ 52) (-51)
      = (k * 2 ^ (w + 1), -(w : Int) - 2, .exact) := by
    have htarget : min (-(w : Int) - -51) (Format.binary64.targetExponent
        (totalExponent (k * 2 ^ w) (-w) - totalExponent (2 ^ 52) (-51))) = -w - 2 := by
      rw [targetExponent_binary64, totalExponent, totalExponent, hlog, Nat.log2_two_pow]
      omega
    have hshift : (-(w : Int) - -51 - (-w - 2)).toNat = 53 := by omega
    have hdividend : (k * 2 ^ w) <<< 53 = k * 2 ^ (w + 1) * 2 ^ 52 := by
      rw [Nat.shiftLeft_eq]
      ring
    have hquotient : k * 2 ^ (w + 1) * 2 ^ 52 / 2 ^ 52 = k * 2 ^ (w + 1) :=
      Nat.mul_div_cancel _ (by decide)
    simp only [divCore, htarget, hshift, hdividend, hquotient, Nat.mul_mod_left]
    rfl
  have hfull : 2 ^ 52 ≤ k * 2 ^ (w + 1) := ((Nat.le_log2 hdigits.ne').mp hlog.ge).trans
    (Nat.mul_le_mul_left k (Nat.pow_le_pow_right (by decide) w.le_succ))
  have hplace : (-w - 2 + (w + 1 : Nat) : Int) = -1 := by omega
  unfold rank?
  rw [unpack_div, unpack_ofInt_two, hunpack, div, hcore]
  exact (rank?_round_mul_pow hpos hk (by omega) (by omega) hfull .positive).trans (hplace ▸ rfl)

theorem exists_unpack_half {k : Nat} (hpos : 0 < k) (hk : k < 2 ^ 53) :
    ∃ (v : Nat) (h : 0 < k * 2 ^ v), v ≤ 52 ∧
      (ofInt k / ofInt 2).toModel.unpack = .finite .positive (k * 2 ^ v) (-v - 1) h := by
  obtain ⟨v, hdigits, hv, hlog, -⟩ := exists_unpack_ofInt hpos hk
  obtain ⟨m, e, hfloat, hunits⟩ := exists_ofFloat?_of_rank? (units_pos hpos _)
    (units_lt_beyond hk (by decide)) (rank?_ofInt_div_two hpos hk)
  have hplace : -(v : Int) - 1 + v = -1 := by omega
  have hsame : units m e = units (k * 2 ^ v) (-v - 1) := by
    rw [hunits, ← Nat.pow_eq, ← units_add k (by omega), hplace]
  obtain ⟨rfl, rfl⟩ := (canonical_of_ofFloat? hfloat).eq_of_units_eq
    ⟨by omega, by omega, (Nat.log2_lt hdigits.ne').mp (by omega),
      .inr ((Nat.le_log2 hdigits.ne').mp hlog.ge)⟩ hsame
  exact ⟨v, hdigits, hv, unpack_of_ofFloat? hfloat hdigits⟩

/-! ## Differences -/

theorem unpack_sub (x y : Float) : (x - y).toModel.unpack = (Float.Model.pack
    (sub Format.binary64 x.toModel.unpack y.toModel.unpack)).unpack := rfl

theorem unpack_sub_of_finite {x y : Float} {m n : Nat} {e f : Int} {hm : 0 < m} {hn : 0 < n}
    (hx : x.toModel.unpack = .finite .positive m e hm)
    (hy : y.toModel.unpack = .finite .positive n f hn) :
    (x - y).toModel.unpack = (Float.Model.pack (UnpackedFloat.normalize Format.binary64
      ((m * 2 ^ (e - min e f).toNat : Nat) - (n * 2 ^ (f - min e f).toNat : Nat) : Int)
      (min e f) .positive)).unpack := by
  rw [unpack_sub, hx, hy, sub]
  simp only [decreaseExponent, Nat.shiftLeft_eq]
  rfl

/-- Brought to one exponent, twice the first count is compared with the second one. -/
theorem exists_unpack_sub_half {i k : Nat} (hi : 0 < i) (hi' : i < 2 ^ 53) (hpos : 0 < k)
    (hk : k < 2 ^ 53) : ∃ u : Nat, u ≤ 52 ∧ (ofInt i - ofInt k / ofInt 2).toModel.unpack
      = (Float.Model.pack (UnpackedFloat.normalize Format.binary64
          ((2 * i * 2 ^ u : Nat) - (k * 2 ^ u : Nat) : Int) (-u - 1) .positive)).unpack := by
  obtain ⟨w, hdigits, hw, -, hunpack⟩ := exists_unpack_ofInt hi hi'
  obtain ⟨v, hdigits', hv, hunpack'⟩ := exists_unpack_half hpos hk
  obtain ⟨u, hu⟩ : ∃ u : Nat, min (-(w : Int)) (-v - 1) = -u - 1 :=
    ⟨(-1 - min (-(w : Int)) (-v - 1)).toNat, by omega⟩
  obtain ⟨a, ha⟩ : ∃ a : Nat, u + 1 = w + a := ⟨u + 1 - w, by omega⟩
  obtain ⟨b, hb⟩ : ∃ b : Nat, u = v + b := ⟨u - v, by omega⟩
  have hleft : i * 2 ^ w * 2 ^ a = 2 * i * 2 ^ u := by
    rw [mul_assoc, ← pow_add, ← ha, pow_succ']
    ring
  have hright : k * 2 ^ v * 2 ^ b = k * 2 ^ u := by rw [mul_assoc, ← pow_add, ← hb]
  have hshifts : (-(w : Int) - (-u - 1)).toNat = a ∧ (-(v : Int) - 1 - (-u - 1)).toNat = b := by
    omega
  refine ⟨u, by omega, ?_⟩
  rw [unpack_sub_of_finite hunpack hunpack', hu, hshifts.1, hshifts.2, hleft, hright]

theorem rank?_zero_sub_half {k : Nat} (hpos : 0 < k) (hk : k < 2 ^ 53) :
    rank? (ofInt 0 - ofInt k / ofInt 2) = some (Sign.negative.apply (units k (-1) : Nat)) := by
  obtain ⟨v, hdigits, -, hunpack⟩ := exists_unpack_half hpos hk
  have hc : IsCanonical (.finite .negative (k * 2 ^ v) (-v - 1) hdigits) := by
    have hc : IsCanonical (ofInt k / ofInt 2).toModel.unpack := isCanonical_unpack _
    rwa [hunpack] at hc
  have hrank := rank?_ofInt_div_two hpos hk
  rw [rank?, hunpack] at hrank
  rw [rank?, unpack_sub, unpack_ofInt_zero, hunpack, sub]
  refine (congrArg unpackedRank? (unpack_pack hc)).trans ?_
  exact congrArg (fun r : Int => some (-r)) (Option.some.inj hrank)

/-- How far a count lies from the half of another one, exactly. -/
theorem ofInt_sub_half {i k : Nat} (hik : i ≤ k) (hpos : 0 < k) (hk : k < 2 ^ 53) :
    (2 * i < k → rank? (ofInt i - ofInt k / ofInt 2)
        = some (Sign.negative.apply (units (k - 2 * i) (-1) : Nat))) ∧
      (2 * i = k → (ofInt i - ofInt k / ofInt 2).toModel.unpack = .zero .positive) ∧
      (k < 2 * i → rank? (ofInt i - ofInt k / ofInt 2)
        = some (Sign.positive.apply (units (2 * i - k) (-1) : Nat))) := by
  rcases Nat.eq_zero_or_pos i with rfl | hi
  · exact ⟨fun _ => rank?_zero_sub_half hpos hk, by omega, by omega⟩
  obtain ⟨u, hu, hunpack⟩ := exists_unpack_sub_half hi (by omega) hpos hk
  have hplace : -(u : Int) - 1 + u = -1 := by omega
  rw [rank?, hunpack]
  refine ⟨fun h => ?_, fun h => ?_, fun h => ?_⟩
  · have hle := Nat.mul_le_mul_right (2 ^ u) h.le
    have hd : ((2 * i * 2 ^ u : Nat) - (k * 2 ^ u : Nat) : Int)
        = Sign.negative.apply ((k - 2 * i) * 2 ^ u : Nat) := by
      rw [Sign.apply, Nat.sub_mul]
      omega
    rw [rank?_normalize (by omega) (by omega) (by omega) (by omega) .negative hd, hplace]
  · rw [h, sub_self]
    exact unpack_pack (show IsCanonical (.zero _) from trivial)
  · have hle := Nat.mul_le_mul_right (2 ^ u) h.le
    have hd : ((2 * i * 2 ^ u : Nat) - (k * 2 ^ u : Nat) : Int)
        = Sign.positive.apply ((2 * i - k) * 2 ^ u : Nat) := by
      rw [Sign.apply, Nat.sub_mul]
      omega
    rw [rank?_normalize (by omega) (by omega) (by omega) (by omega) .positive hd, hplace]

/-! ## Factors -/

theorem unpack_zero_mul {x y : Float} {c : Nat} {e : Int} {hc : 0 < c}
    (hx : x.toModel.unpack = .zero .positive)
    (hy : y.toModel.unpack = .finite .positive c e hc) :
    (x * y).toModel.unpack = .zero .positive := by
  rw [unpack_mul, hx, hy, mul]
  exact unpack_pack (show IsCanonical (.zero _) from trivial)

theorem mul_positive (s : Sign) : s * .positive = s := by
  cases s <;> rfl

theorem eq_of_apply_eq {s s' : Sign} {r r' : Nat} (hr : 0 < r) (h : s'.apply r' = s.apply r) :
    s' = s ∧ r' = r := by
  cases s <;> cases s' <;> simp only [Sign.apply] at h
  case positive.positive => exact ⟨rfl, by omega⟩
  case negative.negative => exact ⟨rfl, by omega⟩
  all_goals omega

theorem le_of_error {u size : Nat} (h : |(u : Int) - size| * 2 ^ 52 ≤ size) :
    size * (2 ^ 52 - 1) ≤ u * 2 ^ 52 := by
  have := neg_abs_le ((u : Int) - size)
  omega

/-- One part in `2 ^ 52` may be lost of a product that exceeds a bound by as much. -/
theorem units_le_of_error {a b c q r size u : Nat}
    (h : b * 2 ^ 52 * 2 ^ q ≤ a * c * (2 ^ 52 - 1)) (hr : units a (-12) ≤ r)
    (hsize : size * 2 ^ q = r * c) (herror : size * (2 ^ 52 - 1) ≤ u * 2 ^ 52) :
    units b (-12) ≤ u := by
  obtain ⟨unit, hunit⟩ : ∃ unit, ∀ n, units n (-12) = n * unit := ⟨_, fun n => rfl⟩
  refine Nat.le_of_mul_le_mul_right ?_ (Nat.mul_pos (Nat.two_pow_pos 52) (Nat.two_pow_pos q))
  calc units b (-12) * (2 ^ 52 * 2 ^ q) = b * 2 ^ 52 * 2 ^ q * unit := by
        rw [hunit]
        ring
    _ ≤ a * c * (2 ^ 52 - 1) * unit := Nat.mul_le_mul_right _ h
    _ = units a (-12) * c * (2 ^ 52 - 1) := by
        rw [hunit]
        ring
    _ ≤ r * c * (2 ^ 52 - 1) := Nat.mul_le_mul_right _ (Nat.mul_le_mul_right _ hr)
    _ = size * (2 ^ 52 - 1) * 2 ^ q := by
        rw [← hsize]
        ring
    _ ≤ u * 2 ^ 52 * 2 ^ q := Nat.mul_le_mul_right _ herror
    _ = u * (2 ^ 52 * 2 ^ q) := by ring

theorem lt_exponent {m a : Nat} {e : Int} (hm : m < Nat.pow 2 53) (ha : 0 < a)
    (h : units a (-12) ≤ units m e) : -65 < e := by
  by_contra hle
  have hlt := units_lt_units hm (not_lt.mp hle)
  have hplace : (-65 : Int) + (53 : Nat) = -12 := by decide
  have hone := units_add 1 (e := -65) (by decide) 53
  rw [hplace, one_mul] at hone
  rw [← hone] at hlt
  exact hlt.not_ge ((units_le_units ha le_rfl).trans h)

/-- A factor `c * 2 ^ -q` takes a magnitude of at least `a * 2 ^ -12` to one of at least
`b * 2 ^ -12`, if the exact product exceeds that by one part in `2 ^ 52`. -/
theorem exists_rank?_mul {x y : Float} {s : Sign} {r a b c q : Nat} {hc : 0 < c}
    (hx : rank? x = some (s.apply r)) (hr : units a (-12) ≤ r) (ha : 0 < a)
    (hy : y.toModel.unpack = .finite .positive c (-q) hc) (hq : q ≤ 53) (hb : b < 2 ^ 53)
    (h : b * 2 ^ 52 * 2 ^ q ≤ a * c * (2 ^ 52 - 1)) :
    ∃ r' : Nat, rank? (x * y) = some (s.apply r') ∧ units b (-12) ≤ r' := by
  have hpos : 0 < r := (units_pos ha _).trans_le hr
  have hbeyond : units b (-12) ≤ beyond := (units_lt_beyond hb (by decide)).le
  have hcanonical : IsCanonical x.toModel.unpack := isCanonical_unpack _
  unfold rank? at hx ⊢
  rw [unpack_mul, hy]
  cases hu : x.toModel.unpack with
  | notANumber => simp [hu, unpackedRank?] at hx
  | zero s' =>
    rw [hu, unpackedRank?, Option.some.injEq] at hx
    have hzero : Sign.apply .positive 0 = s.apply r := hx
    exact absurd (eq_of_apply_eq hpos hzero).2 hpos.ne
  | infinity s' =>
    rw [hu, unpackedRank?, Option.some.injEq] at hx
    obtain ⟨rfl, -⟩ := eq_of_apply_eq hpos hx
    refine ⟨beyond, ?_, hbeyond⟩
    rw [mul, unpack_pack (show IsCanonical (.infinity _) from trivial), mul_positive, unpackedRank?]
  | finite s' m e hm =>
    rw [hu, unpackedRank?, Option.some.injEq] at hx
    obtain ⟨rfl, rfl⟩ := eq_of_apply_eq hpos hx
    have hcanonical : Canonical m e := by rwa [hu] at hcanonical
    have he := lt_exponent hcanonical.lt ha hr
    obtain ⟨d, hd⟩ : ∃ d : Nat, e + -q + 1074 = d := ⟨(e - q + 1074).toNat, by omega⟩
    have hfull : 2 ^ 52 ≤ m := hcanonical.full.resolve_left (by omega)
    have hsize : m * c * 2 ^ d * 2 ^ q = units m e * c := by
      have hunits : (e + 1074).toNat = d + q := by omega
      rw [units, hunits, Nat.pow_eq, pow_add]
      ring
    have hdigits : 0 < m * c := Nat.mul_pos hm hc
    have hrounds : Rounds (m * c * 2 ^ d) (kept (m * c) (e + -q)) (lastPlace (m * c) (e + -q)) :=
      rounds_kept (a := 0) (b := d) hdigits (by rw [pow_zero, mul_one]) (by simpa using hd)
        (.inl (hfull.trans (Nat.le_mul_of_pos_right _ hc)))
    have hrank := rank?_round (Nat.mul_pos hdigits (Nat.two_pow_pos d)) hrounds s'
    have herror := le_of_error hrounds.error
    generalize units (kept (m * c) (e + -q)) (lastPlace (m * c) (e + -q)) = u at hrank herror
    generalize m * c * 2 ^ d = size at hsize herror
    refine ⟨min u beyond, ?_, le_min ?_ hbeyond⟩
    · rw [mul, mul_positive]
      exact hrank
    · exact units_le_of_error h hr hsize herror

end Binary64

namespace Double

theorem value_sub (x y : Double) : (x - y).value = x.value - y.value := value_ofFloat _

end Double

end Whiteboard
