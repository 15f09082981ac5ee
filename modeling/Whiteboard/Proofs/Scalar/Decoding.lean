import Mathlib
import Whiteboard.Scalar.Double

/-!
# Doubles and the numbers they stand for

The comparisons of doubles are comparisons of integers: every double but the one that is no number
has a rank, which for the finite ones is the value in units of the least positive double. Products
and quotients are followed only as far as their signs go.
-/

namespace Whiteboard.Binary64

open Float.Model (UnpackedFloat Format)
open Float.Model.UnpackedFloat

/-! ## Ranks -/

/-- Significand and exponent as doubles have them. -/
structure Canonical (m : Nat) (e : Int) : Prop where
  least_le : -1074 ≤ e
  le_most : e ≤ 971
  lt : m < Nat.pow 2 53
  full : e = -1074 ∨ Nat.pow 2 52 ≤ m

/-- A magnitude in units of the least positive double. -/
def units (m : Nat) (e : Int) : Nat := m * Nat.pow 2 (e + 1074).toNat

/-- The rank of infinity, which no finite magnitude reaches. -/
@[irreducible]
def beyond : Nat := units (Nat.pow 2 53) 971

/-- What unpacked doubles are compared by. -/
def unpackedRank? : UnpackedFloat → Option Int
  | .notANumber => none
  | .infinity s => some (s.apply beyond)
  | .zero _ => some 0
  | .finite s m e _ => some (s.apply (units m e))

/-- Values as doubles have them. -/
def IsCanonical : UnpackedFloat → Prop
  | .finite _ m e _ => Canonical m e
  | _ => True

theorem units_zero (e : Int) : units 0 e = 0 := Nat.zero_mul _

theorem units_pos {m : Nat} (h : 0 < m) (e : Int) : 0 < units m e :=
  Nat.mul_pos h (Nat.pow_pos (by decide))

theorem units_add (m : Nat) {e : Int} (he : -1074 ≤ e) (k : Nat) :
    units m (e + k) = units (m * Nat.pow 2 k) e := by
  have hk : (e + k + 1074).toNat = k + (e + 1074).toNat := by omega
  simp only [units, hk, Nat.pow_eq, pow_add, mul_assoc]

theorem Canonical.units_lt_units {m₁ m₂ : Nat} {e₁ e₂ : Int} (h₁ : Canonical m₁ e₁)
    (h₂ : Canonical m₂ e₂) (h : e₁ < e₂) : units m₁ e₁ < units m₂ e₂ := by
  have hleast := h₁.least_le
  have hfull : Nat.pow 2 52 ≤ m₂ := h₂.full.resolve_left (by omega)
  obtain ⟨k, rfl⟩ : ∃ k : Nat, e₂ = e₁ + (1 + k : Nat) := ⟨(e₂ - e₁ - 1).toNat, by omega⟩
  rw [units_add m₂ hleast]
  refine Nat.mul_lt_mul_of_pos_right ?_ (Nat.pow_pos (by decide))
  have hone : 1 ≤ Nat.pow 2 k := Nat.pow_pos (by decide)
  calc m₁ < Nat.pow 2 53 := h₁.lt
    _ = Nat.pow 2 52 * 2 := rfl
    _ ≤ m₂ * (2 * Nat.pow 2 k) := Nat.mul_le_mul hfull (by omega)
    _ = m₂ * Nat.pow 2 (1 + k) := by simp only [Nat.pow_eq, pow_add, pow_one]

theorem units_lt_units {m₁ m₂ : Nat} {e₁ e₂ : Int} (hm : m₁ < m₂) (he : e₁ ≤ e₂) :
    units m₁ e₁ < units m₂ e₂ := by
  have hpow : Nat.pow 2 (e₁ + 1074).toNat ≤ Nat.pow 2 (e₂ + 1074).toNat :=
    Nat.pow_le_pow_right (by decide) (by omega)
  exact Nat.mul_lt_mul_of_lt_of_le hm hpow (Nat.pow_pos (by decide))

theorem units_lt_beyond {m : Nat} {e : Int} (hm : m < Nat.pow 2 53) (he : e ≤ 971) :
    units m e < beyond := by
  unfold beyond
  exact units_lt_units hm he

theorem Canonical.units_lt_beyond {m : Nat} {e : Int} (h : Canonical m e) : units m e < beyond :=
  Binary64.units_lt_beyond h.lt h.le_most

theorem canonical_zero : Canonical 0 (-1074) := ⟨le_rfl, by decide, by decide, .inl rfl⟩

theorem beyond_pos : 0 < beyond := lt_of_le_of_lt (Nat.zero_le _) canonical_zero.units_lt_beyond

theorem Canonical.compare_units {m₁ m₂ : Nat} {e₁ e₂ : Int} (h₁ : Canonical m₁ e₁)
    (h₂ : Canonical m₂ e₂) :
    compare (units m₁ e₁ : Int) (units m₂ e₂) = (compare e₁ e₂).then (compare m₁ m₂) := by
  rcases lt_trichotomy e₁ e₂ with h | rfl | h
  · rw [compare_lt_iff_lt.mpr h,
      compare_lt_iff_lt.mpr (Int.ofNat_lt.mpr (h₁.units_lt_units h₂ h))]
    rfl
  · have hpos : 0 < Nat.pow 2 (e₁ + 1074).toNat := Nat.pow_pos (by decide)
    rw [compare_eq_iff_eq.mpr (rfl : e₁ = e₁), Ordering.eq_then]
    rcases lt_trichotomy m₁ m₂ with h | rfl | h
    · rw [compare_lt_iff_lt.mpr h]
      exact compare_lt_iff_lt.mpr (Int.ofNat_lt.mpr (Nat.mul_lt_mul_of_pos_right h hpos))
    · rw [compare_eq_iff_eq.mpr rfl, compare_eq_iff_eq.mpr rfl]
    · rw [compare_gt_iff_gt.mpr h]
      exact compare_gt_iff_gt.mpr (Int.ofNat_lt.mpr (Nat.mul_lt_mul_of_pos_right h hpos))
  · rw [compare_gt_iff_gt.mpr h,
      compare_gt_iff_gt.mpr (Int.ofNat_lt.mpr (h₂.units_lt_units h₁ h))]
    rfl

theorem compare_neg_neg (a b : Int) : compare (-a) (-b) = (compare a b).swap := by
  rcases lt_trichotomy a b with h | rfl | h
  · rw [compare_lt_iff_lt.mpr h, compare_gt_iff_gt.mpr (neg_lt_neg h), Ordering.swap_lt]
  · rw [compare_eq_iff_eq.mpr rfl, compare_eq_iff_eq.mpr rfl, Ordering.swap_eq]
  · rw [compare_gt_iff_gt.mpr h, compare_lt_iff_lt.mpr (neg_lt_neg h), Ordering.swap_gt]

/-- Doubles are compared by their ranks. -/
theorem compare_eq {u v : UnpackedFloat} (hu : IsCanonical u) (hv : IsCanonical v) :
    u.compare v = (unpackedRank? u).bind fun i => (unpackedRank? v).map fun j => compare i j := by
  have lt : ∀ {a b : Int}, a < b → some Ordering.lt = some (compare a b) := fun h => by
    rw [compare_lt_iff_lt.mpr h]
  have gt : ∀ {a b : Int}, b < a → some Ordering.gt = some (compare a b) := fun h => by
    rw [compare_gt_iff_gt.mpr h]
  have eq : ∀ a : Int, some Ordering.eq = some (compare a a) := fun a => by
    rw [compare_eq_iff_eq.mpr rfl]
  have hb := beyond_pos
  match u, v, hu, hv with
  | .notANumber, _, _, _ => rfl
  | .infinity s, .notANumber, _, _ | .zero s, .notANumber, _, _
  | .finite s _ _ _, .notANumber, _, _ => cases s <;> rfl
  | .infinity s, .infinity s', _, _ =>
    cases s <;> cases s'
    exacts [eq _, lt (by simp only [Sign.apply]; omega), gt (by simp only [Sign.apply]; omega),
      eq _]
  | .infinity s, .zero s', _, _ =>
    cases s
    exacts [lt (by simp only [Sign.apply]; omega), gt (by simp only [Sign.apply]; omega)]
  | .zero s, .infinity s', _, _ =>
    cases s'
    exacts [gt (by simp only [Sign.apply]; omega), lt (by simp only [Sign.apply]; omega)]
  | .zero s, .zero s', _, _ => exact eq 0
  | .infinity s, .finite s' m e hm, _, hv =>
    have := hv.units_lt_beyond
    cases s <;> cases s'
    exacts [lt (by simp only [Sign.apply]; omega), lt (by simp only [Sign.apply]; omega),
      gt (by simp only [Sign.apply]; omega), gt (by simp only [Sign.apply]; omega)]
  | .finite s m e hm, .infinity s', hu, _ =>
    have := hu.units_lt_beyond
    cases s <;> cases s'
    exacts [gt (by simp only [Sign.apply]; omega), lt (by simp only [Sign.apply]; omega),
      gt (by simp only [Sign.apply]; omega), lt (by simp only [Sign.apply]; omega)]
  | .zero s, .finite s' m e hm, _, _ =>
    have := units_pos hm e
    cases s'
    exacts [gt (by simp only [Sign.apply]; omega), lt (by simp only [Sign.apply]; omega)]
  | .finite s m e hm, .zero s', _, _ =>
    have := units_pos hm e
    cases s
    exacts [lt (by simp only [Sign.apply]; omega), gt (by simp only [Sign.apply]; omega)]
  | .finite s m e hm, .finite s' m' e' hm', hu, hv =>
    have hcompare := Canonical.compare_units hu hv
    have := units_pos hm e
    have := units_pos hm' e'
    cases s <;> cases s'
    · rw [UnpackedFloat.compare, ← hcompare, ← compare_neg_neg]
      rfl
    · exact lt (by simp only [Sign.apply]; omega)
    · exact gt (by simp only [Sign.apply]; omega)
    · rw [UnpackedFloat.compare, ← hcompare]
      rfl

/-! ## Bits -/

/-- The exact value of what a double is unpacked to. -/
def ofUnpacked? : UnpackedFloat → Option Binary64
  | .zero s => some ⟨s == .negative, 0, -1074⟩
  | .finite s m e _ => some ⟨s == .negative, m, e⟩
  | .infinity _ | .notANumber => none

theorem toNat_one_append (m : BitVec 52) : (1#1 ++ m).toNat = Nat.pow 2 52 + m.toNat := by
  rw [BitVec.toNat_append, ← Nat.shiftLeft_add_eq_or_of_lt m.isLt, Nat.shiftLeft_eq]
  simp

theorem toNat_unpackMantissa (b : BitVec 64) :
    (@unpackMantissa Format.binary64 b).toNat = b.toNat % Nat.pow 2 52 := by
  simp [unpackMantissa]

theorem toNat_unpackExponent (b : BitVec 64) :
    (@unpackExponent Format.binary64 b).toNat
      = b.toNat / Nat.pow 2 52 % Nat.pow 2 11 := by
  simp [unpackExponent, Nat.shiftRight_eq_div_pow]

theorem unpackSign_eq (b : BitVec 64) :
    Sign.ofBitVec (@unpackSign Format.binary64 b)
      = if Nat.pow 2 63 ≤ b.toNat then .negative else .positive := by
  have hb := b.isLt
  have hs : (@unpackSign Format.binary64 b).toNat = b.toNat / 2 ^ 63 := by
    simp [unpackSign, Nat.shiftRight_eq_div_pow]
    omega
  simp only [Nat.pow_eq]
  unfold Sign.ofBitVec
  split
  · next h =>
    rw [h] at hs
    rw [if_neg]
    simp at hs
    omega
  · next h =>
    rw [if_pos]
    by_contra hlt
    exact h (BitVec.eq_of_toNat_eq (by rw [hs]; simp; omega))

theorem beq_negative_unpackSign (b : BitVec 64) :
    (Sign.ofBitVec (@unpackSign Format.binary64 b) == .negative)
      = decide (Nat.pow 2 63 ≤ b.toNat) := by
  rw [unpackSign_eq]
  split
  · next h => simp only [h]; rfl
  · next h => simp only [h]; rfl

theorem unpackExponent_eq_top_iff (b : BitVec 64) :
    @unpackExponent Format.binary64 b = -1#11
      ↔ (@unpackExponent Format.binary64 b).toNat = 2047 :=
  ⟨fun h => by rw [h]; rfl, fun h => BitVec.eq_of_toNat_eq (h.trans rfl)⟩

theorem unpackExponent_eq_zero_iff (b : BitVec 64) :
    @unpackExponent Format.binary64 b = 0#11
      ↔ (@unpackExponent Format.binary64 b).toNat = 0 :=
  ⟨fun h => by rw [h]; rfl, fun h => BitVec.eq_of_toNat_eq (h.trans rfl)⟩

theorem exponentBias_eq : ((Format.binary64.exponentBias : Nat) : Int) = 1023 := by decide

theorem ofUnpacked?_unpack (b : BitVec 64) :
    ofUnpacked? (unpack Format.binary64 b) = ofBits? b.toNat := by
  have htop := unpackExponent_eq_top_iff b
  have hzero := unpackExponent_eq_zero_iff b
  unfold ofBits? unpack
  dsimp only
  rw [← toNat_unpackExponent, ← toNat_unpackMantissa, ← beq_negative_unpackSign]
  split
  · next h =>
    rw [if_pos (htop.mp h)]
    split <;> rfl
  · next ht =>
    rw [if_neg (mt htop.mpr ht)]
    split
    · next h =>
      rw [if_pos (hzero.mp h)]
      split
      · next hm => rw [hm]; rfl
      · rw [ofUnpacked?, exponentBias_eq, hzero.mp h]; rfl
    · next hz =>
      rw [if_neg (mt hzero.mpr hz), ofUnpacked?, toNat_one_append, exponentBias_eq]
      simp only [Nat.pow_eq, Option.some.injEq, mk.injEq, true_and]
      omega

theorem isCanonical_unpack (b : BitVec 64) : IsCanonical (unpack Format.binary64 b) := by
  have htop := unpackExponent_eq_top_iff b
  have hzero := unpackExponent_eq_zero_iff b
  have hm := toNat_unpackMantissa b
  have he := toNat_unpackExponent b
  unfold unpack
  dsimp only
  split
  · split <;> trivial
  · next ht =>
    split
    · next hz =>
      split
      · trivial
      · rw [hz]
        refine ⟨by decide, by decide, ?_, .inl (by decide)⟩
        simp only [Nat.pow_eq] at hm ⊢
        omega
    · next hz =>
      have ht := mt htop.mpr ht
      have hz := mt hzero.mpr hz
      have happ := toNat_one_append (@unpackMantissa Format.binary64 b)
      simp only [Nat.pow_eq] at happ hm he ht hz
      constructor <;> simp only [Nat.pow_eq, exponentBias_eq] <;> omega

theorem log2_of_full {m : Nat} (h : m < Nat.pow 2 53) (hf : Nat.pow 2 52 ≤ m) : m.log2 = 52 := by
  simp only [Nat.pow_eq] at h hf
  exact (Nat.log2_eq_iff (by omega)).mpr ⟨hf, h⟩

/-- What a double is unpacked to is packed and unpacked without loss. -/
theorem unpack_pack {u : UnpackedFloat} (h : IsCanonical u) :
    (Float.Model.pack u).unpack = u := by
  change unpack Format.binary64 (pack Format.binary64 u) = u
  match u, h with
  | .notANumber, _ => rfl
  | .infinity s, _ => cases s <;> rfl
  | .zero s, _ => cases s <;> rfl
  | .finite s m e hm, h =>
    have hbits : (e + Format.binary64.exponentBias
        + Format.binary64.mantissaBitsWithoutImplicit).toNat = (e + 1075).toNat := by
      rw [exponentBias_eq]
      change (e + 1023 + 52).toNat = _
      omega
    obtain ⟨hleast, hmost, hlt, hfull⟩ := h
    rw [pack]
    dsimp only
    rw [hbits, if_neg (by change ¬ 2048 ≤ _; omega)]
    simp only [Nat.pow_eq] at hlt hfull
    by_cases hlow : m < 2 ^ 52
    · have hlog : m.log2 < 52 := (Nat.log2_lt (by omega)).mpr hlow
      have he : e = -1074 := hfull.resolve_right (by omega)
      have hne : BitVec.ofNat 52 m ≠ 0#52 := fun h => by
        have := congrArg BitVec.toNat h
        rw [BitVec.toNat_ofNat, Nat.mod_eq_of_lt hlow] at this
        exact absurd this (by simp; omega)
      rw [if_neg (by change ¬ _ = 53; omega), unpack]
      simp only [unpackMantissa_packComponents, unpackExponent_packComponents,
        unpackSign_packComponents, Sign.ofBitVec_toBitVec]
      rw [if_neg (by decide), if_pos trivial, dif_neg hne]
      simp only [BitVec.toNat_ofNat, Nat.mod_eq_of_lt hlow, exponentBias_eq, he]
      rfl
    · have hlog := log2_of_full hlt (Nat.not_lt.mp hlow)
      have hexp : (BitVec.ofNat 11 (e + 1075).toNat).toNat = (e + 1075).toNat := by
        rw [BitVec.toNat_ofNat]; omega
      have htop : BitVec.ofNat 11 (e + 1075).toNat ≠ -1#11 := fun h => by
        have := congrArg BitVec.toNat h
        rw [hexp] at this
        change _ = 2047 at this
        omega
      have hzero : BitVec.ofNat 11 (e + 1075).toNat ≠ 0#11 := fun h => by
        have := congrArg BitVec.toNat h
        rw [hexp] at this
        change _ = 0 at this
        omega
      rw [if_pos (by rw [hlog]; rfl), unpack]
      simp only [unpackMantissa_packComponents, unpackExponent_packComponents,
        unpackSign_packComponents, Sign.ofBitVec_toBitVec]
      rw [if_neg htop, if_neg hzero]
      have hm' : (1#1 ++ BitVec.ofNat 52 m).toNat = m := by
        rw [toNat_one_append, BitVec.toNat_ofNat]
        simp only [Nat.pow_eq]
        omega
      simp only [hm', hexp, exponentBias_eq, finite.injEq, true_and]
      omega

/-! ## Signs -/

/-- The sign of what is a number. -/
def sign? : UnpackedFloat → Option Sign
  | .notANumber => none
  | .infinity s | .zero s | .finite s _ _ _ => some s

theorem sign?_unpack_packComponents (s : Sign) {e : BitVec 11} (he : e ≠ -1#11) (m : BitVec 52) :
    sign? (unpack Format.binary64 (packComponents Format.binary64 s e m)) = some s := by
  rw [unpack]
  simp only [unpackMantissa_packComponents, unpackExponent_packComponents,
    unpackSign_packComponents, Sign.ofBitVec_toBitVec]
  rw [if_neg he]
  split
  · split <;> rfl
  · rfl

/-- Packing may round to infinity, but it keeps signs and what is no number. -/
theorem sign?_unpack_pack (u : UnpackedFloat) : sign? (Float.Model.pack u).unpack = sign? u := by
  change sign? (unpack Format.binary64 (pack Format.binary64 u)) = sign? u
  cases u with
  | notANumber => rfl
  | infinity s => cases s <;> rfl
  | zero s => cases s <;> rfl
  | finite s m e hm =>
    rw [pack]
    dsimp only
    split
    · cases s <;> rfl
    · next hlt =>
      split
      · refine sign?_unpack_packComponents s (fun h => hlt ?_) _
        have hexp := congrArg BitVec.toNat h
        rw [BitVec.toNat_ofNat] at hexp
        change _ % 2048 = 2047 at hexp
        change 2048 ≤ _
        omega
      · exact sign?_unpack_packComponents s (by decide) _

theorem sign?_roundWithAccuracy (spec : Format) (s : Sign) (m : Nat) (e : Int) (a : Accuracy) :
    sign? (roundWithAccuracy spec s m e a) = some s := by
  unfold roundWithAccuracy
  dsimp only
  split <;> rfl

/-- Zero of either sign, or of positive sign. -/
def IsNonneg (u : UnpackedFloat) : Prop := (∃ s, u = .zero s) ∨ sign? u = some .positive

theorem isNonneg_iff {u : UnpackedFloat} : IsNonneg u ↔ ∃ i, unpackedRank? u = some i ∧ 0 ≤ i := by
  have hb := beyond_pos
  cases u with
  | notANumber => simp [IsNonneg, sign?, unpackedRank?]
  | infinity s => cases s <;> simp [IsNonneg, sign?, unpackedRank?, Sign.apply]; omega
  | zero s => simp [IsNonneg, unpackedRank?]
  | finite s m e hm =>
    have := units_pos hm e
    cases s <;> simp [IsNonneg, sign?, unpackedRank?, Sign.apply]; omega

theorem IsNonneg.pack {u : UnpackedFloat} (h : IsNonneg u) :
    IsNonneg (Float.Model.pack u).unpack := by
  obtain ⟨s, rfl⟩ | h := h
  · rw [unpack_pack (show IsCanonical (.zero s) from trivial)]
    exact .inl ⟨s, rfl⟩
  · exact .inr ((sign?_unpack_pack u).trans h)

theorem IsNonneg.mul {u v : UnpackedFloat} (hu : IsNonneg u) (hv : IsNonneg v) :
    mul Format.binary64 u v = .notANumber ∨ IsNonneg (mul Format.binary64 u v) := by
  obtain ⟨s, rfl⟩ | hu := hu <;> obtain ⟨s', rfl⟩ | hv := hv
  · exact .inr (.inl ⟨_, rfl⟩)
  · cases v with
    | notANumber | infinity => exact .inl rfl
    | zero | finite => exact .inr (.inl ⟨_, rfl⟩)
  · cases u with
    | notANumber | infinity => exact .inl rfl
    | zero | finite => exact .inr (.inl ⟨_, rfl⟩)
  · cases u <;> cases v <;> simp only [sign?, Option.some.injEq, reduceCtorEq] at hu hv <;>
      subst hu hv
    case finite.finite => exact .inr (.inr (sign?_roundWithAccuracy ..))
    case zero.zero | zero.finite | finite.zero => exact .inr (.inl ⟨_, rfl⟩)
    case infinity.infinity | infinity.finite | finite.infinity => exact .inr (.inr rfl)
    case infinity.zero | zero.infinity => exact .inl rfl

/-- Quotients by what is above zero. -/
theorem IsNonneg.div {u v : UnpackedFloat} (hu : IsNonneg u) (hv : sign? v = some .positive)
    (hz : ∀ s, v ≠ .zero s) :
    div Format.binary64 u v = .notANumber ∨ IsNonneg (div Format.binary64 u v) := by
  obtain ⟨s, rfl⟩ | hu := hu
  · cases v with
    | notANumber => exact .inl rfl
    | zero s' => exact absurd rfl (hz s')
    | infinity | finite => exact .inr (.inl ⟨_, rfl⟩)
  · cases u <;> cases v <;> simp only [sign?, Option.some.injEq, reduceCtorEq] at hu hv <;>
      subst hu hv
    case finite.finite => exact .inr (.inr (sign?_roundWithAccuracy ..))
    case infinity.zero | zero.zero | finite.zero => exact absurd rfl (hz _)
    case infinity.infinity => exact .inl rfl
    case infinity.finite => exact .inr (.inr rfl)
    case zero.infinity | zero.finite | finite.infinity => exact .inr (.inl ⟨_, rfl⟩)

theorem ne_notANumber_of_mul {u v : UnpackedFloat} (h : mul Format.binary64 u v ≠ .notANumber) :
    u ≠ .notANumber ∧ v ≠ .notANumber := by
  constructor
  · rintro rfl
    exact h rfl
  · rintro rfl
    cases u <;> exact h rfl

theorem ne_notANumber_of_div {u v : UnpackedFloat} (h : div Format.binary64 u v ≠ .notANumber) :
    u ≠ .notANumber ∧ v ≠ .notANumber := by
  constructor
  · rintro rfl
    exact h rfl
  · rintro rfl
    cases u <;> exact h rfl

/-! ## Doubles -/

theorem ofUnpacked?_toModel (x : Float) : ofUnpacked? x.toModel.unpack = ofFloat? x :=
  ofUnpacked?_unpack _

/-- A double has the value of the bits that it was made of. -/
theorem ofFloat?_ofBits (b : UInt64) : ofFloat? (.ofBits b) = ofBits? b.toNat := by
  rw [← ofUnpacked?_toModel]
  change ofUnpacked? (Float.Model.pack (unpack Format.binary64 b.toBitVec)).unpack = _
  rw [unpack_pack (isCanonical_unpack _), ofUnpacked?_unpack]
  rfl

/-- What doubles are compared by; only what is no number has none. -/
def rank? (x : Float) : Option Int := unpackedRank? x.toModel.unpack

theorem compare_float (x y : Float) :
    x.toModel.compare y.toModel = (rank? x).bind fun i => (rank? y).map fun j => compare i j :=
  compare_eq (isCanonical_unpack _) (isCanonical_unpack _)

theorem le_iff {x y : Float} : x ≤ y ↔ ∃ i j, rank? x = some i ∧ rank? y = some j ∧ i ≤ j := by
  have hle : x ≤ y ↔ (x.toModel.compare y.toModel).any (·.isLE) = true := by
    change (decide _ : Bool) = true ↔ _
    rw [decide_eq_true_iff]
    rfl
  rw [hle, compare_float]
  cases hx : rank? x <;> cases hy : rank? y <;> simp [Ordering.isLE_iff_ne_gt, compare_gt_iff_gt]

theorem lt_iff {x y : Float} : x < y ↔ ∃ i j, rank? x = some i ∧ rank? y = some j ∧ i < j := by
  have hlt : x < y ↔ (x.toModel.compare y.toModel == some .lt) = true := by
    change (decide _ : Bool) = true ↔ _
    rw [decide_eq_true_iff]
    rfl
  rw [hlt, compare_float]
  cases hx : rank? x <;> cases hy : rank? y <;> simp [compare_lt_iff_lt]

theorem beq_iff {x y : Float} :
    (x == y) = true ↔ ∃ i j, rank? x = some i ∧ rank? y = some j ∧ i = j := by
  have heq : (x == y) = (x.toModel.compare y.toModel == some .eq) := rfl
  rw [heq, compare_float]
  cases hx : rank? x <;> cases hy : rank? y <;> simp
  omega

end Whiteboard.Binary64
