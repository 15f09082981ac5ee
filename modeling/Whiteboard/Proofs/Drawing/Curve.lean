import Mathlib
import Whiteboard.Drawing.Connector
import Whiteboard.Proofs.Scalar.Exact
import Whiteboard.Proofs.Scalar.Halves

/-!
# Curves of parallel arrows

With the default strength the arrows between the same nodes are bent so far apart that all but the
middle one are taken back to the sides. Their curves ascend and are symmetric about the straight
line, but from four arrows on they are no longer distinct (`Connector.fansOut_of_spreads`). This
holds for exact numbers, and for doubles as long as the arrows can be counted without rounding.
-/

namespace Whiteboard

/-! ## Curves from side to side -/

section Sides

variable {α : Type} [Scalar α]

/-- Curves of arrows that are bent as far as they go: all before the middle to one side, and as many
behind it to the other side. -/
structure FansOut (cs : List α) : Prop where
  sides : cs = List.replicate (cs.length / 2) (-1) ++ List.replicate (cs.length % 2) 0 ++
    List.replicate (cs.length / 2) 1
  bounds : ∀ c ∈ cs, -1 ≤ c ∧ c ≤ 1
  ascending : cs.Pairwise (· ≤ ·)
  symmetric : List.zipWith (· + ·) cs cs.reverse = List.replicate cs.length 0
  distinct_iff : cs.Pairwise (· < ·) ↔ cs.length ≤ 3

/-- Numbers among which the two sides are equally far from the straight line. -/
structure Balanced (α : Type) [Scalar α] : Prop extends LawfulScalar α where
  neg_one_le_self : (-1 : α) ≤ -1
  neg_one_neg : (-1 : α) < 0
  neg_one_add_one : (-1 + 1 : α) = 0
  one_add_neg_one : (1 + -1 : α) = 0
  zero_add_zero : (0 + 0 : α) = 0

theorem pairwise_blocks {β : Type} {R : β → β → Prop} {a b c : β} (hab : R a b) (hac : R a c)
    (hbc : R b c) (k r : Nat) :
    (List.replicate k a ++ List.replicate r b ++ List.replicate k c).Pairwise R
      ↔ (k ≤ 1 ∨ R a a) ∧ (r ≤ 1 ∨ R b b) ∧ (k ≤ 1 ∨ R c c) := by
  have hfirst : ∀ x ∈ List.replicate k a, ∀ y ∈ List.replicate r b, R x y := by
    intro x hx y hy
    rwa [List.eq_of_mem_replicate hx, List.eq_of_mem_replicate hy]
  have hlast : ∀ x ∈ List.replicate k a ++ List.replicate r b, ∀ y ∈ List.replicate k c,
      R x y := by
    intro x hx y hy
    rw [List.eq_of_mem_replicate hy]
    rcases List.mem_append.mp hx with hx | hx <;> rwa [List.eq_of_mem_replicate hx]
  rw [List.pairwise_append, List.pairwise_append, List.pairwise_replicate, List.pairwise_replicate,
    List.pairwise_replicate, and_iff_left hlast, and_iff_left hfirst, and_assoc]

namespace Balanced

variable (hα : Balanced α)

include hα

theorem one_pos : (0 : α) < 1 :=
  have := hα.toLawfulScalar
  Scalar.ofNat_pos (by decide) (by decide)

theorem neg_one_lt_one : (-1 : α) < 1 :=
  have := hα.toLawfulScalar
  Scalar.lt_of_lt_of_le hα.neg_one_neg (Scalar.le_of_lt hα.one_pos)

/-! From beyond a side, a curve is taken back to it. -/

theorem clamp_of_one_le {x : α} (h : 1 ≤ x) : Scalar.greater (-1) (Scalar.lesser 1 x) = 1 := by
  have := hα.toLawfulScalar
  have hlesser : Scalar.lesser 1 x = 1 := if_neg fun hx => (LawfulScalar.lt_iff.mp hx).2 h
  rw [hlesser]
  exact if_pos hα.neg_one_lt_one

theorem clamp_zero : Scalar.greater (-1) (Scalar.lesser 1 (0 : α)) = 0 := by
  have hlesser : Scalar.lesser 1 (0 : α) = 0 := if_pos hα.one_pos
  rw [hlesser]
  exact if_pos hα.neg_one_neg

theorem clamp_of_le_neg_one {x : α} (h : x ≤ -1) :
    Scalar.greater (-1) (Scalar.lesser 1 x) = -1 := by
  have := hα.toLawfulScalar
  obtain ⟨hle, hne⟩ := LawfulScalar.lt_iff.mp hα.neg_one_lt_one
  have hlt : x < 1 := LawfulScalar.lt_iff.mpr
    ⟨LawfulScalar.le_trans h hle, fun hx => hne (LawfulScalar.le_trans hx h)⟩
  have hlesser : Scalar.lesser 1 x = x := if_pos hlt
  rw [hlesser]
  exact if_neg fun hx => (LawfulScalar.lt_iff.mp hx).2 h

theorem fansOut_blocks (k r : Nat) (hr : r ≤ 1) :
    FansOut (List.replicate k (-1 : α) ++ List.replicate r 0 ++ List.replicate k 1) := by
  have := hα.toLawfulScalar
  have hneg := hα.neg_one_neg
  have hone := hα.one_pos
  have hsides := hα.neg_one_lt_one
  have hself (n : Nat) (hn : n < Nat.pow 2 53) : (OfNat.ofNat n : α) ≤ OfNat.ofNat n :=
    LawfulScalar.le_self (Scalar.isFinite_ofNat hn)
  have hlength : (List.replicate k (-1 : α) ++ List.replicate r 0 ++ List.replicate k 1).length
      = 2 * k + r := by
    simp only [List.length_append, List.length_replicate]
    omega
  constructor
  case sides =>
    have hdiv : (2 * k + r) / 2 = k := by omega
    have hmod : (2 * k + r) % 2 = r := by omega
    rw [hlength, hdiv, hmod]
  case bounds =>
    simp only [List.forall_mem_append]
    refine ⟨⟨?_, ?_⟩, ?_⟩ <;> intro c hc <;> rw [List.eq_of_mem_replicate hc]
    · exact ⟨hα.neg_one_le_self, Scalar.le_of_lt hsides⟩
    · exact ⟨Scalar.le_of_lt hneg, Scalar.le_of_lt hone⟩
    · exact ⟨Scalar.le_of_lt hsides, hself 1 (by decide)⟩
  case ascending =>
    rw [pairwise_blocks (Scalar.le_of_lt hneg) (Scalar.le_of_lt hsides) (Scalar.le_of_lt hone)]
    exact ⟨.inr hα.neg_one_le_self, .inr (hself 0 (by decide)), .inr (hself 1 (by decide))⟩
  case symmetric =>
    have hreverse :
        (List.replicate k (-1 : α) ++ List.replicate r 0 ++ List.replicate k 1).reverse
          = List.replicate k 1 ++ List.replicate r 0 ++ List.replicate k (-1) := by
      simp only [List.reverse_append, List.reverse_replicate, List.append_assoc]
    have hsum : k + r + k = 2 * k + r := by omega
    rw [hreverse, hlength, List.zipWith_append (by simp), List.zipWith_append (by simp)]
    simp only [List.zipWith_replicate', hα.neg_one_add_one, hα.zero_add_zero, hα.one_add_neg_one,
      List.replicate_append_replicate, hsum]
  case distinct_iff =>
    rw [pairwise_blocks hneg hsides hone, hlength]
    simp only [Scalar.lt_irrefl, or_false]
    omega

end Balanced

namespace Connector

/-- How far the `i`-th of `n` arrows is bent with the default strength, before its curve is taken
back to the sides. -/
def unclamped (i n : Nat) : α :=
  (Scalar.ofInt i - Scalar.ofInt ((n : Int) - 1) / 2) * 1.5 * 2 * Scalar.orElse 0.7 1

theorem curve_eq {n : Nat} (hn : 2 ≤ n) (i : Nat) :
    curve true 0.7 i n = Scalar.greater (-1) (Scalar.lesser 1 (unclamped i n : α)) := by
  have htotal : (1 : Int) < n := by omega
  simp only [curve, unclamped, if_pos htotal, if_true]

/-- All arrows but the middle one are bent beyond the sides. -/
structure Spreads (α : Type) [Scalar α] (n : Nat) : Prop where
  before : ∀ i : Nat, 2 * i + 1 < n → (unclamped i n : α) ≤ -1
  middle : ∀ i : Nat, 2 * i + 1 = n → (unclamped i n : α) = 0
  behind : ∀ i : Nat, i < n → n < 2 * i + 1 → (1 : α) ≤ unclamped i n

theorem fansOut_of_spreads (hα : Balanced α) {n : Nat} (hn : 2 ≤ n) (h : Spreads α n) :
    FansOut ((List.range n).map fun i : Nat => curve true (0.7 : α) i n) := by
  have hblock (start count : Nat) (c : α)
      (hc : ∀ i, start ≤ i → i < start + count → curve true (0.7 : α) i n = c) :
      ((List.range count).map (start + ·)).map (fun i : Nat => curve true (0.7 : α) i n)
        = List.replicate count c := by
    rw [List.map_map, List.eq_replicate_iff]
    refine ⟨by simp, fun x hx => ?_⟩
    obtain ⟨i, hi, rfl⟩ := List.mem_map.mp hx
    exact hc _ (Nat.le_add_right _ _) (Nat.add_lt_add_left (List.mem_range.mp hi) _)
  have hrange : List.range n = (List.range (n / 2)).map (0 + ·)
      ++ (List.range (n % 2)).map (n / 2 + ·) ++ (List.range (n / 2)).map (n / 2 + n % 2 + ·) := by
    have hsum : n = n / 2 + n % 2 + n / 2 := by omega
    conv_lhs => rw [hsum, List.range_add, List.range_add]
    simp only [Nat.zero_add, List.map_id']
  rw [hrange, List.map_append, List.map_append, hblock 0 _ (-1), hblock _ _ 0, hblock _ _ 1]
  · exact hα.fansOut_blocks _ _ (by omega)
  · intro i hi hi'
    rw [curve_eq hn, hα.clamp_of_one_le (h.behind i (by omega) (by omega))]
  · intro i hi hi'
    rw [curve_eq hn, h.middle i (by omega), hα.clamp_zero]
  · intro i hi hi'
    rw [curve_eq hn, hα.clamp_of_le_neg_one (h.before i (by omega))]

end Connector

end Sides

/-! ## Exact numbers -/

section Exact

theorem stretched_le {K : Type} [Field K] [LinearOrder K] [IsStrictOrderedRing K] {x y : K}
    (h : x + 1 ≤ y) : (x - y) * ((21 : Nat) / (20 : Nat)) ≤ -1 ∧
      1 ≤ (y - x) * ((21 : Nat) / (20 : Nat)) := by
  push_cast
  constructor <;> linarith

variable {α : Type} [Field α] [LinearOrder α] [FloorRing α] [Trigonometry α]

theorem ofScientific_ofField (m e : Nat) :
    @OfScientific.ofScientific α Scalar.toOfScientific m true e
      = (m : α) / ((10 : Nat) : α) ^ e := by
  rw [Nat.cast_ofNat]
  rfl

theorem Connector.unclamped_ofField (i n : Nat) : (unclamped i n : α)
    = (((2 * i + 1 : Nat) : α) - (n : Nat)) * (((21 : Nat) : α) / (20 : Nat)) := by
  have horElse (x y : α) (hx : x ≠ 0) : Scalar.orElse x y = x := by
    refine if_neg fun h => hx ?_
    have hzero := of_decide_eq_true h
    rwa [Scalar.instOfNat_eq, Nat.cast_zero] at hzero
  have hint (i : Int) : (Scalar.ofInt i : α) = i := rfl
  rw [unclamped, horElse _ _ (by rw [ofScientific_ofField]; norm_num)]
  simp only [ofScientific_ofField, Scalar.instOfNat_eq, hint]
  push_cast
  ring

variable [IsStrictOrderedRing α]

theorem balanced_ofField : Balanced α where
  toLawfulScalar := inferInstance
  neg_one_le_self := le_refl _
  neg_one_neg := by simp [Scalar.instOfNat_eq]
  neg_one_add_one := by simp [Scalar.instOfNat_eq]
  one_add_neg_one := by simp [Scalar.instOfNat_eq]
  zero_add_zero := by simp [Scalar.instOfNat_eq]

theorem Connector.spreads_ofField (n : Nat) : Spreads α n where
  before i hi := by
    have hnext : ((2 * i + 1 : Nat) : α) + 1 ≤ n := by exact_mod_cast hi
    rw [unclamped_ofField]
    simp only [Scalar.instOfNat_eq, Nat.cast_one]
    exact (stretched_le hnext).1
  middle i hi := by
    rw [unclamped_ofField, hi, sub_self, zero_mul, Scalar.instOfNat_eq, Nat.cast_zero]
  behind i _ hi := by
    have hnext : (n : α) + 1 ≤ ((2 * i + 1 : Nat) : α) := by exact_mod_cast hi
    rw [unclamped_ofField]
    simp only [Scalar.instOfNat_eq, Nat.cast_one]
    exact (stretched_le hnext).2

end Exact

/-! ## Doubles -/

namespace Binary64

open Float.Model.UnpackedFloat

theorem unpack_spread : (nearestDecimal false 15 (-1)).toModel.unpack
    = .finite .positive 6755399441055744 (-52) (by decide) := by
  rfl

theorem unpack_strength : (nearestDecimal false 7 (-1)).toModel.unpack
    = .finite .positive 6305039478318694 (-53) (by decide) := by
  rfl

/-- What becomes of the distance of an arrow from the middle. -/
def stretch (x : Float) : Float :=
  x * nearestDecimal false 15 (-1) * ofInt 2 * nearestDecimal false 7 (-1)

theorem stretch_zero {x : Float} (hx : x.toModel.unpack = .zero .positive) :
    stretch x = ofInt 0 := by
  have hzero : (stretch x).toModel.unpack = .zero .positive :=
    unpack_zero_mul (unpack_zero_mul (unpack_zero_mul hx unpack_spread) unpack_ofInt_two)
      unpack_strength
  refine eq_of_ofFloat? (b := ⟨false, 0, -1074⟩) ?_ ?_ <;> rw [← ofUnpacked?_toModel]
  · rw [hzero]
    rfl
  · rw [unpack_ofInt_zero]
    rfl

/-- Half a step is stretched beyond one, so much that it may be rounded three times. -/
theorem exists_rank?_stretch {x : Float} {s : Sign} {t : Nat} (ht : 0 < t)
    (hx : rank? x = some (s.apply (units t (-1) : Nat))) :
    ∃ r : Nat, rank? (stretch x) = some (s.apply r) ∧ units 4096 (-12) ≤ r := by
  have hhalf : units 2048 (-12) ≤ units t (-1) := by
    have hplace : (-12 : Int) + (11 : Nat) = -1 := by decide
    have hunits := units_add t (e := -12) (by decide) 11
    rw [hplace] at hunits
    rw [hunits]
    exact units_le_units (Nat.le_mul_of_pos_left _ ht) le_rfl
  obtain ⟨r, hr, hle⟩ := exists_rank?_mul (b := 3071) hx hhalf (by decide) unpack_spread
    (by decide) (by decide) (by decide)
  obtain ⟨r', hr', hle'⟩ := exists_rank?_mul (b := 6141) hr hle (by decide) unpack_ofInt_two
    (by decide) (by decide) (by decide)
  exact exists_rank?_mul hr' hle' (by decide) unpack_strength (by decide) (by decide) (by decide)

end Binary64

namespace Double

theorem balanced : Balanced Double where
  toLawfulScalar := inferInstance
  neg_one_le_self := by decide +kernel
  neg_one_neg := by decide +kernel
  neg_one_add_one := by rfl
  one_add_neg_one := by rfl
  zero_add_zero := by rfl

open Float.Model.UnpackedFloat in
theorem one_le_of_rank? {x : Double} {r : Nat} (h : Binary64.units 4096 (-12) ≤ r)
    (hx : Binary64.rank? x.value = some (Sign.positive.apply r)) : 1 ≤ x := by
  have hone : Binary64.rank? (1 : Double).value = some (Binary64.units 4096 (-12) : Nat) := by
    decide +kernel
  generalize Binary64.units 4096 (-12) = one at h hone
  exact Binary64.le_iff.mpr ⟨_, _, hone, hx, Int.ofNat_le.mpr h⟩

open Float.Model.UnpackedFloat in
theorem le_neg_one_of_rank? {x : Double} {r : Nat} (h : Binary64.units 4096 (-12) ≤ r)
    (hx : Binary64.rank? x.value = some (Sign.negative.apply r)) : x ≤ -1 := by
  have hone : Binary64.rank? (-1 : Double).value
      = some (Sign.negative.apply (Binary64.units 4096 (-12) : Nat)) := by
    decide +kernel
  generalize Binary64.units 4096 (-12) = one at h hone
  exact Binary64.le_iff.mpr ⟨_, _, hx, hone, Int.neg_le_neg (Int.ofNat_le.mpr h)⟩

theorem value_unclamped {i n : Nat} (hn : 0 < n) : (Connector.unclamped i n : Double).value
    = Binary64.stretch
        (Binary64.ofInt i - Binary64.ofInt ((n - 1 : Nat) : Int) / Binary64.ofInt 2) := by
  have hstrength : Scalar.orElse (0.7 : Double) 1 = 0.7 := if_neg (by decide +kernel)
  have hlast : (n : Int) - 1 = (n - 1 : Nat) := by omega
  have hvalue (m : Nat) : (OfScientific.ofScientific m true 1 : Double).value
      = Binary64.nearestDecimal false m (-1) := value_ofFloat _
  have htwo : (2 : Double).value = Binary64.ofInt 2 := value_ofFloat _
  rw [Connector.unclamped, hstrength, hlast]
  simp only [value_mul, value_sub, value_div, value_ofInt, hvalue, htwo]
  rfl

theorem unclamped_eq (i n : Nat) : (Connector.unclamped i n : Double)
    = ofFloat (Connector.unclamped i n : Double).value := by
  change ofFloat _ = ofFloat (ofFloat _).value
  rw [value_ofFloat]

theorem spreads {n : Nat} (hn : 2 ≤ n) (hmost : n ≤ 2 ^ 53) : Connector.Spreads Double n := by
  have hlast : 0 < n - 1 ∧ n - 1 < 2 ^ 53 := by omega
  have hdistance {i : Nat} (hi : i < n) := Binary64.ofInt_sub_half (i := i) (k := n - 1)
    (by omega) hlast.1 hlast.2
  constructor
  case before =>
    intro i hi
    have hrank := (hdistance (i := i) (by omega)).1 (by omega)
    obtain ⟨r, hr, hle⟩ := Binary64.exists_rank?_stretch (by omega) hrank
    rw [← value_unclamped (by omega)] at hr
    exact le_neg_one_of_rank? hle hr
  case middle =>
    intro i hi
    have hzero := (hdistance (i := i) (by omega)).2.1 (by omega)
    rw [unclamped_eq, value_unclamped (by omega), Binary64.stretch_zero hzero]
    rfl
  case behind =>
    intro i hi hi'
    have hrank := (hdistance hi).2.2 (by omega)
    obtain ⟨r, hr, hle⟩ := Binary64.exists_rank?_stretch (by omega) hrank
    rw [← value_unclamped (by omega)] at hr
    exact one_le_of_rank? hle hr

end Double

end Whiteboard
