import Whiteboard.Proofs.Scalar.Lawful
import Whiteboard.Proofs.Scalar.Rounding

/-!
# The laws of doubles

Doubles obey the laws of numbers (`Double.instLawfulScalar`), by way of their ranks and of the exact
values of remainders.
-/

namespace Whiteboard

namespace Binary64

open Float.Model (UnpackedFloat)
open Float.Model.UnpackedFloat

theorem rank?_of_ofFloat? {x : Float} {b : Binary64} (h : ofFloat? x = some b) :
    rank? x = some (if b.negative then -(units b.significand b.exponent : Int)
      else units b.significand b.exponent) := by
  rw [← ofUnpacked?_toModel] at h
  unfold rank?
  generalize x.toModel.unpack = u at h
  cases u with
  | notANumber | infinity => simp [ofUnpacked?] at h
  | zero s =>
    cases h
    simp [unpackedRank?, units_zero]
  | finite s m e hm =>
    cases h
    cases s <;> rfl

theorem isFinite_iff {x : Float} : x.isFinite = true ↔ ∃ b, ofFloat? x = some b := by
  rw [← ofUnpacked?_toModel]
  change x.toModel.unpack.isFinite = true ↔ _
  cases x.toModel.unpack <;> simp [UnpackedFloat.isFinite, ofUnpacked?]

theorem isNaN_iff {x : Float} : x.isNaN = true ↔ rank? x = none := by
  change x.toModel.unpack.isNaN = true ↔ unpackedRank? x.toModel.unpack = none
  cases x.toModel.unpack <;> simp [UnpackedFloat.isNaN, unpackedRank?]

theorem le_self_iff {x : Float} : x ≤ x ↔ x.toModel.unpack ≠ .notANumber := by
  rw [le_iff]
  unfold rank?
  cases x.toModel.unpack <;> simp [unpackedRank?]

/-- A double that is made without rounding. -/
theorem nearestScaled_of_lt (s : Bool) {m : Nat} {e : Int} (he : -1074 ≤ e)
    (hm : m < Nat.pow 2 53) : nearestScaled s m e = exact s m e := by
  have hlog : m.log2 ≤ 52 := by
    by_cases hz : m = 0
    · simp [hz]
    · exact Nat.lt_succ_iff.mp ((Nat.log2_lt hz).mpr hm)
  have hlifted : max (-1074) ((m.log2 : Int) + e - 52) ≤ e := by omega
  simp only [nearestScaled, if_pos hlifted]

theorem fits_of_lt {m : Nat} (hm : m < Nat.pow 2 53) : Fits m 0 where
  least_le := by decide
  le := hm.le
  lt := units_lt_beyond hm (by decide)

theorem ofInt_of_lt {i : Int} (h : i.natAbs < Nat.pow 2 53) :
    ofInt i = exact (i < 0) i.natAbs 0 :=
  nearestScaled_of_lt _ (by decide) h

theorem rank?_ofInt {i : Int} (h : i.natAbs < Nat.pow 2 53) :
    ∃ u : Nat, rank? (ofInt i) = some (if i < 0 then -(u : Int) else u) ∧ units i.natAbs 0 = u := by
  obtain ⟨m, e, hexact, -, hunits⟩ := ofFloat?_exact (fits_of_lt h) (i < 0)
  refine ⟨_, ?_, hunits.symm⟩
  rw [ofInt_of_lt h, rank?_of_ofFloat? hexact]
  simp

theorem rank?_zero : rank? (ofInt 0) = some 0 := by
  obtain ⟨u, hrank, rfl⟩ := rank?_ofInt (i := 0) (by decide)
  simpa [units_zero] using hrank

theorem zero_le_iff {x : Float} : ofInt 0 ≤ x ↔ IsNonneg x.toModel.unpack := by
  rw [le_iff, isNonneg_iff, rank?_zero]
  simp [rank?]

theorem pos_of_zero_lt {x : Float} (h : ofInt 0 < x) :
    sign? x.toModel.unpack = some .positive ∧ ∀ s, x.toModel.unpack ≠ .zero s := by
  obtain ⟨i, j, hi, hj, hlt⟩ := lt_iff.mp h
  cases rank?_zero.symm.trans hi
  unfold rank? at hj
  have hb := beyond_pos
  cases hu : x.toModel.unpack with
  | notANumber => simp [hu, unpackedRank?] at hj
  | zero s =>
    simp only [hu, unpackedRank?, Option.some.injEq] at hj
    omega
  | infinity s =>
    cases s <;> simp only [hu, unpackedRank?, Sign.apply, Option.some.injEq] at hj
    · omega
    · simp [sign?]
  | finite s m e hm =>
    have := units_pos hm e
    cases s <;> simp only [hu, unpackedRank?, Sign.apply, Option.some.injEq] at hj
    · omega
    · simp [sign?]

theorem mul_nonneg {x y : Float} (hx : ofInt 0 ≤ x) (hy : ofInt 0 ≤ y) (h : x * y ≤ x * y) :
    ofInt 0 ≤ x * y := by
  rw [zero_le_iff] at hx hy ⊢
  rw [le_self_iff] at h
  rcases hx.mul hy with hnan | hmul
  · exact absurd (by change (Float.Model.pack _).unpack = _; rw [hnan]; rfl) h
  · exact hmul.pack

theorem div_nonneg {x y : Float} (hx : ofInt 0 ≤ x) (hy : ofInt 0 < y) (h : x / y ≤ x / y) :
    ofInt 0 ≤ x / y := by
  rw [zero_le_iff] at hx ⊢
  rw [le_self_iff] at h
  obtain ⟨hsign, hzero⟩ := pos_of_zero_lt hy
  rcases hx.div hsign hzero with hnan | hdiv
  · exact absurd (by change (Float.Model.pack _).unpack = _; rw [hnan]; rfl) h
  · exact hdiv.pack

theorem le_self_of_mul {x y : Float} (h : x * y ≤ x * y) : x ≤ x ∧ y ≤ y := by
  rw [le_self_iff] at h ⊢
  rw [le_self_iff]
  refine ne_notANumber_of_mul fun hnan => h ?_
  change (Float.Model.pack _).unpack = _
  rw [hnan]
  rfl

theorem le_self_of_div {x y : Float} (h : x / y ≤ x / y) : x ≤ x ∧ y ≤ y := by
  rw [le_self_iff] at h ⊢
  rw [le_self_iff]
  refine ne_notANumber_of_div fun hnan => h ?_
  change (Float.Model.pack _).unpack = _
  rw [hnan]
  rfl

theorem exists_of_zero_lt {x : Float} (h : ofInt 0 < x) {b : Binary64} (hb : ofFloat? x = some b) :
    b = ⟨false, b.significand, b.exponent⟩ ∧ b.significand ≠ 0 := by
  obtain ⟨i, j, hi, hj, hlt⟩ := lt_iff.mp h
  cases rank?_zero.symm.trans hi
  rw [rank?_of_ofFloat? hb, Option.some.injEq] at hj
  obtain ⟨negative, m, e⟩ := b
  dsimp only at hj ⊢
  cases negative with
  | true =>
    simp only [if_true] at hj
    omega
  | false =>
    refine ⟨rfl, fun hm => ?_⟩
    simp only [hm, units_zero] at hj
    simp at hj
    omega

/-- The remainder by a positive divisor, where it is a number. -/
theorem modulo_cases {x y : Float} (hy : ofInt 0 < y) {i : Int} (hi : rank? (modulo x y) = some i) :
    ∃ m e r q, ofFloat? y = some ⟨false, m, e⟩ ∧ modulo x y = exact false r q ∧ Fits r q ∧
      rank? (modulo x y) = some (units r q : Int) ∧ rank? y = some (units m e : Int) ∧
      units r q ≤ units m e := by
  cases hx' : ofFloat? x with
  | none => simp [modulo, hx', show rank? (0.0 / 0.0) = none by decide +kernel] at hi
  | some a =>
    cases hy' : ofFloat? y with
    | none => simp [modulo, hx', hy', show rank? (0.0 / 0.0) = none by decide +kernel] at hi
    | some b =>
      obtain ⟨hb, hm⟩ := exists_of_zero_lt hy hy'
      rw [hb] at hy'
      obtain ⟨r, q, hexact, hfits, hle⟩ := modulo_exact hx' hy' hm
      obtain ⟨r', q', hr, -, hunits⟩ := ofFloat?_exact hfits false
      refine ⟨_, _, r, q, hb ▸ rfl, hexact, hfits, ?_, ?_, hle⟩
      · rw [hexact, rank?_of_ofFloat? hr, ← hunits]
        rfl
      · rw [rank?_of_ofFloat? hy']
        rfl

theorem modulo_le {x y : Float} (hy : ofInt 0 < y) (h : modulo x y ≤ modulo x y) :
    modulo x y ≤ y := by
  obtain ⟨i, -, hi, -⟩ := le_iff.mp h
  obtain ⟨m, e, r, q, -, -, -, hrank, hrank', hle⟩ := modulo_cases hy hi
  exact le_iff.mpr ⟨_, _, hrank, hrank', Int.ofNat_le.mpr hle⟩

theorem modulo_modulo {x y : Float} (hy : ofInt 0 < y) (h : modulo x y < y) :
    modulo (modulo x y) y = modulo x y := by
  obtain ⟨i, j, hi, hj, hlt⟩ := lt_iff.mp h
  obtain ⟨m, e, r, q, hy', hexact, hfits, hrank, hrank', -⟩ := modulo_cases hy hi
  rw [hrank, Option.some.injEq] at hi
  rw [hrank', Option.some.injEq] at hj
  rw [hexact]
  exact modulo_of_lt hfits hy' (by omega)

theorem modulo_zero {y : Float} (hy : ofInt 0 < y) (h : y.isFinite = true) :
    modulo (ofInt 0) y = ofInt 0 := by
  obtain ⟨b, hb⟩ := isFinite_iff.mp h
  obtain ⟨hb', hm⟩ := exists_of_zero_lt hy hb
  rw [hb'] at hb
  rw [ofInt_of_lt (by decide)]
  refine modulo_of_lt (fits_of_lt (by decide)) hb ?_
  exact (units_zero 0).trans_lt (units_pos (Nat.pos_of_ne_zero hm) _)

end Binary64

namespace Double

@[simp]
theorem value_tagged (x : Float) (o : Origin) : (tagged x o).value = x := by
  unfold tagged
  split <;> rfl

@[simp]
theorem value_ofFloat (x : Float) : (ofFloat x).value = x := value_tagged x .computed

@[simp]
theorem le_iff_value {x y : Double} : x ≤ y ↔ x.value ≤ y.value := Iff.rfl

@[simp]
theorem lt_iff_value {x y : Double} : x < y ↔ x.value < y.value := Iff.rfl

@[simp]
theorem value_zero : (0 : Double).value = Binary64.ofInt 0 := value_ofFloat _

@[simp]
theorem value_mul (x y : Double) : (x * y).value = x.value * y.value := value_ofFloat _

@[simp]
theorem value_div (x y : Double) : (x / y).value = x.value / y.value := value_ofFloat _

@[simp]
theorem value_modulo (x y : Double) :
    (Scalar.modulo x y).value = Binary64.modulo x.value y.value := value_ofFloat _

theorem settle_of_isNaN_eq_false {x : Double} (h : x.value.isNaN = false) : x.settle = x := by
  have horigin := x.kept_of_number h
  simp [settle, horigin]

/-- What was kept is kept already. -/
theorem settle_settle (x : Double) : x.settle.settle = x.settle := by
  have horigin : x.settle.origin = .kept ∨ x.settle = x ∧ x.origin ≠ .computed := by
    by_cases h : x.origin = .computed
    · refine .inl ?_
      rw [settle, if_pos h, tagged]
      split <;> rfl
    · exact .inr ⟨if_neg h, h⟩
  rcases horigin with h | ⟨h, hne⟩
  · exact if_neg fun hcomputed => Origin.noConfusion (h.symm.trans hcomputed)
  · rw [h]
    exact if_neg hne

theorem same_symm {a b : Double} (h : same a b = true) : same b a = true := by
  simp only [same, Bool.or_eq_true, Bool.and_eq_true, decide_eq_true_eq] at h ⊢
  rcases h with h | ⟨⟨⟨ha, hb⟩, heq⟩, hne⟩
  · exact .inl (BEq.symm h)
  · exact .inr ⟨⟨⟨hb, ha⟩, heq.symm⟩, heq ▸ hne⟩

theorem same_trans {a b c : Double} (h : same a b = true) (h' : same b c = true) :
    same a c = true := by
  simp only [same, Bool.or_eq_true, Bool.and_eq_true, decide_eq_true_eq] at h h' ⊢
  rcases h with h | ⟨⟨⟨ha, hb⟩, heq⟩, hne⟩ <;> rcases h' with h' | ⟨⟨⟨hb', hc⟩, heq'⟩, hne'⟩
  · exact .inl (BEq.trans h h')
  · rw [Float.isNaN_eq_decide_eq_nan, decide_eq_true_eq] at hb'
    rw [hb', Float.beq_nan_eq_false] at h
    contradiction
  · rw [Float.isNaN_eq_decide_eq_nan, decide_eq_true_eq] at hb
    rw [hb, Float.nan_beq_eq_false] at h'
    contradiction
  · exact .inr ⟨⟨⟨ha, hc⟩, heq.trans heq'⟩, hne⟩

theorem isNaN_eq_false {x : Double} (h : x ≤ x) : x.value.isNaN = false := by
  obtain ⟨i, -, hi, -⟩ := Binary64.le_iff.mp h
  rw [Bool.eq_false_iff, ne_eq, Binary64.isNaN_iff, hi]
  simp

theorem le_self_of_isFinite {x : Double} (h : Scalar.isFinite x = true) : x ≤ x := by
  obtain ⟨b, hb⟩ := Binary64.isFinite_iff.mp h
  have hrank := Binary64.rank?_of_ofFloat? hb
  exact Binary64.le_iff.mpr ⟨_, _, hrank, hrank, le_rfl⟩

instance instLawfulScalar : LawfulScalar Double where
  symm := same_symm
  trans := same_trans
  le_trans h h' := by
    obtain ⟨i, j, hi, hj, hij⟩ := Binary64.le_iff.mp h
    obtain ⟨j', k, hj', hk, hjk⟩ := Binary64.le_iff.mp h'
    rw [hj, Option.some.injEq] at hj'
    exact Binary64.le_iff.mpr ⟨i, k, hi, hk, by omega⟩
  le_total h h' := by
    obtain ⟨i, -, hi, -⟩ := Binary64.le_iff.mp h
    obtain ⟨j, -, hj, -⟩ := Binary64.le_iff.mp h'
    rcases le_total i j with hij | hji
    · exact .inl (Binary64.le_iff.mpr ⟨i, j, hi, hj, hij⟩)
    · exact .inr (Binary64.le_iff.mpr ⟨j, i, hj, hi, hji⟩)
  lt_iff {x y} := by
    simp only [lt_iff_value, le_iff_value, Binary64.lt_iff, Binary64.le_iff]
    constructor
    · rintro ⟨i, j, hi, hj, hij⟩
      refine ⟨⟨i, j, hi, hj, hij.le⟩, ?_⟩
      rintro ⟨j', i', hj', hi', hji⟩
      rw [hi, Option.some.injEq] at hi'
      rw [hj, Option.some.injEq] at hj'
      omega
    · rintro ⟨⟨i, j, hi, hj, hij⟩, hn⟩
      exact ⟨i, j, hi, hj, lt_of_not_ge fun hji => hn ⟨j, i, hj, hi, hji⟩⟩
  le_self := le_self_of_isFinite
  beq_of_le_of_ge {x y} h h' := by
    obtain ⟨i, j, hi, hj, hij⟩ := Binary64.le_iff.mp h
    obtain ⟨j', i', hj', hi', hji⟩ := Binary64.le_iff.mp h'
    rw [hi, Option.some.injEq] at hi'
    rw [hj, Option.some.injEq] at hj'
    have heq : (x.value == y.value) = true := Binary64.beq_iff.mpr ⟨i, j, hi, hj, by omega⟩
    change same x y = true
    simp [same, heq]
  settle_eq h := settle_of_isNaN_eq_false (isNaN_eq_false (le_self_of_isFinite h))
  isFinite_settle {x} := by
    change (settle x).value.isFinite = x.value.isFinite
    rw [settle]
    split
    · rw [value_tagged]
    · rfl
  isFinite_ofInt {i} h := by
    obtain ⟨m, e, hexact, -⟩ := Binary64.ofFloat?_exact (Binary64.fits_of_lt h) (i < 0)
    change (ofFloat (Binary64.ofInt i)).value.isFinite = true
    rw [value_ofFloat, Binary64.isFinite_iff, Binary64.ofInt_of_lt h]
    exact ⟨_, hexact⟩
  ofInt_pos {i} hi h := by
    obtain ⟨u, hrank, hunits⟩ := Binary64.rank?_ofInt h
    have hpos : 0 < u := hunits ▸ Binary64.units_pos (by omega) 0
    change (0 : Double).value < (ofFloat (Binary64.ofInt i)).value
    rw [value_ofFloat, value_zero, Binary64.lt_iff]
    refine ⟨_, _, Binary64.rank?_zero, hrank, ?_⟩
    rw [if_neg (by omega)]
    omega
  neg_one_nonpos := by decide +kernel
  le_self_of_mul h := by
    simp only [le_iff_value, value_mul] at h ⊢
    exact Binary64.le_self_of_mul h
  mul_nonneg hx hy h := by
    simp only [le_iff_value, value_mul, value_zero] at hx hy h ⊢
    exact Binary64.mul_nonneg hx hy h
  le_self_of_div h := by
    simp only [le_iff_value, value_div] at h ⊢
    exact Binary64.le_self_of_div h
  div_nonneg hx hy h := by
    simp only [le_iff_value, lt_iff_value, value_div, value_zero] at hx hy h ⊢
    exact Binary64.div_nonneg hx hy h
  modulo_zero {y} hy h := by
    change ofFloat (Binary64.modulo (0 : Double).value y.value) = ofFloat (Binary64.ofInt 0)
    rw [lt_iff_value, value_zero] at hy
    rw [value_zero, Binary64.modulo_zero hy h]
  modulo_le hy h := by
    have hself := le_self_of_isFinite h
    simp only [le_iff_value, lt_iff_value, value_modulo, value_zero] at hy hself ⊢
    exact Binary64.modulo_le hy hself
  modulo_modulo {x y} hy h := by
    simp only [lt_iff_value, value_modulo, value_zero] at hy h
    change ofFloat (Binary64.modulo (Scalar.modulo x y).value y.value) = _
    rw [value_modulo, Binary64.modulo_modulo hy h]
    rfl

end Double

end Whiteboard
